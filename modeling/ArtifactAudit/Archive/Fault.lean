/-!
This module contains the ways in which compressed data and archives can fail to be what they should
be.
-/

namespace ArtifactAudit.Archive

inductive Fault where
  | truncated
  /-- A block of a kind that does not exist, or with lengths that do not agree. -/
  | badBlock
  /-- Code lengths that do not make a code, or bits that no code stands for. -/
  | badCode
  /-- A checksum or a length that does not belong to the data. -/
  | badChecksum
  | badHeader
  | noDirectory
  | unsupported
deriving DecidableEq, Repr

def Fault.message : Fault → String
  | .truncated => "unexpected end of data"
  | .badBlock => "invalid block of compressed data"
  | .badCode => "invalid code in compressed data"
  | .badChecksum => "invalid checksum"
  | .badHeader => "invalid header"
  | .noDirectory => "no directory of archive found"
  | .unsupported => "unsupported archive"

end ArtifactAudit.Archive
