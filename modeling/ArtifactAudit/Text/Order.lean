/-!
This module contains the order of texts by code points, which all sorted output follows.
-/

namespace ArtifactAudit.Text

/--
Whether a text stands before another one: where they differ first it has the smaller code point, or
it ends there.
-/
def Precedes (a b : String) : Prop := @LT.lt String String.instLT a b

instance : DecidableRel Precedes := fun a b => String.decidableLT a b

namespace Precedes

theorem irrefl (a : String) : ¬ Precedes a a := String.lt_irrefl a

theorem trans {a b c : String} (hab : Precedes a b) (hbc : Precedes b c) : Precedes a c :=
  String.lt_trans hab hbc

theorem asymm {a b : String} (hab : Precedes a b) : ¬ Precedes b a := String.lt_asymm hab

theorem eq_of_not {a b : String} (hab : ¬ Precedes a b) (hba : ¬ Precedes b a) : a = b :=
  String.le_antisymm (String.not_lt.1 hba) (String.not_lt.1 hab)

end Precedes

/--
Whether a list of texts stands before another one: where they differ first it has the text that
stands before the other, or it ends there.
-/
def listPrecedes (as bs : List String) : Bool :=
  as.lex bs fun a b => decide (Precedes a b)

end ArtifactAudit.Text
