import ArtifactAudit.Cache
import ArtifactAudit.Proofs.Archive.Gzip
import ArtifactAudit.Proofs.Json.Decode

/-!
This module contains the proof that a record is read back from its entry in a cache.
-/

namespace ArtifactAudit

open Json

namespace Coordinate

theorem ofJson?_toJson (c : Coordinate) : ofJson? c.toJson = some c := by
  have hfields : fields? ["groupId", "artifactId", "version", "packagingType", "classifier"] c.toJson
      = some [some (.text c.group), some (.text c.artifact), some (.text c.version),
        some (.text c.packaging), some (.text c.classifier)] :=
    fields?_record rfl (by decide)
  rw [ofJson?, hfields]
  rfl

theorem readable_toJson (c : Coordinate) : Readable c.toJson := by
  apply readable_record
  simp [readable_text]

end Coordinate

namespace RecordMetadata

theorem ofJson?_toJson {metadata : RecordMetadata} (hversion : metadata.cacheVersion < UInt32.size)
    (htime : metadata.createdAt < UInt64.size)
    : ofJson? metadata.toJson = some metadata := by
  have hfields : fields? ["cache_version", "tool_version", "created_at"] metadata.toJson
      = some [some (.number metadata.cacheVersion), some (.text metadata.toolVersion),
        some (.number metadata.createdAt)] :=
    fields?_record rfl (by decide)
  rw [ofJson?, hfields]
  simp only [Option.bind_eq_bind, Option.bind_some, Option.elim_some, toNat?_number hversion,
    toNat?_number htime, toText?_text]
  rfl

theorem readable_toJson (metadata : RecordMetadata) : Readable metadata.toJson := by
  apply readable_record
  simp [readable_text, Readable]

end RecordMetadata

namespace DependencyRecord

theorem ofJson?_toJson (dependency : DependencyRecord)
    : ofJson? dependency.toJson = some dependency := by
  have hfields : fields? ["coordinate", "transitive"] dependency.toJson
      = some [some dependency.coordinate.toJson, some (.bool dependency.transitive)] :=
    fields?_record rfl (by decide)
  rw [ofJson?, hfields]
  simp only [Option.bind_eq_bind, Option.bind_some, Coordinate.ofJson?_toJson]
  rfl

theorem readable_toJson (dependency : DependencyRecord) : Readable dependency.toJson := by
  apply readable_record
  simp [Coordinate.readable_toJson, Readable]

end DependencyRecord

namespace Record

theorem ofJson?_toJson {record : Record} (hversion : record.metadata.cacheVersion < UInt32.size)
    (htime : record.metadata.createdAt < UInt64.size)
    : ofJson? record.toJson = some record := by
  have hfields : fields? ["metadata", "coordinate", "classes", "usages", "unused", "undeclared",
      "dependencies"] record.toJson
      = some [some record.metadata.toJson, some record.coordinate.toJson,
        some (.ofNameSet record.classes), some (.ofNameMap .ofNameSet record.usages),
        some (.ofNameSet record.unused), some (.ofNameSet record.undeclared),
        some (.array (record.dependencies.map DependencyRecord.toJson))] :=
    fields?_record rfl (by decide)
  rw [ofJson?]
  simp only [hfields, Option.bind_eq_bind, Option.bind_some, Option.elim_some,
    RecordMetadata.ofJson?_toJson hversion htime, Coordinate.ofJson?_toJson, toNameSet?_ofNameSet,
    toNameMap?_ofNameMap toNameSet?_ofNameSet, toList?_map DependencyRecord.ofJson?_toJson]
  rfl

theorem readable_toJson (record : Record) : Readable record.toJson := by
  have hdependencies : Readable (.array (record.dependencies.map DependencyRecord.toJson)) := by
    rw [Readable, readableItems_iff, List.forall_mem_map]
    exact fun dependency _ => dependency.readable_toJson
  apply readable_record
  simp [RecordMetadata.readable_toJson, Coordinate.readable_toJson, readable_ofNameSet,
    readable_ofNameMap readable_ofNameSet, hdependencies]

end Record

namespace Cache

theorem decode?_encode {record : Record} (hversion : record.metadata.cacheVersion < UInt32.size)
    (htime : record.metadata.createdAt < UInt64.size)
    : decode? (encode record) = some record := by
  rw [decode?, encode, Archive.Gzip.decode_encode, Except.toOption, Option.bind_eq_bind,
    Option.bind_some, ofBytes?_compact record.readable_toJson, Option.bind_some,
    Record.ofJson?_toJson hversion htime]

theorem decode?_encode_ofSummary {createdAt : Nat} (htime : createdAt < UInt64.size)
    (summary : Summary)
    : decode? (encode (.ofSummary createdAt summary)) = some (.ofSummary createdAt summary) := by
  have hversion : RecordMetadata.currentVersion < UInt32.size := by decide
  exact decode?_encode hversion htime

end Cache

end ArtifactAudit
