import Loku.Lib.Text
import Mathlib.Data.List.Infix

/-!
# MakeMKV rip names

A rip's file name is a disc-set prefix and a title index, `PREFIX_tNN.mkv` or
`PREFIX_title_tNN.mkv`; a name without such an ending is a set of its own.
-/

namespace Loku

structure RipName where
  pfx : String
  titleIndex : Option Nat
deriving DecidableEq

/-- Split a trailing `_t<digits>` off a stem, when the digits are a `u32`. -/
def splitTitleIndex (stem : List Char) : Option (List Char × Nat) :=
  (Lib.rsplitOnce ['_', 't'] stem).bind fun p =>
    ((Lib.readNat p.2).filter fun n => n < UInt32.size).map fun n => (p.1, n)

/-- `str::strip_suffix`, keeping the text when it has no such suffix. -/
def stripSuffix (suffix text : List Char) : List Char :=
  if suffix <:+ text then text.take (text.length - suffix.length) else text

/-- Decompose a rip's file name. -/
def parseRipName (fileName : String) : RipName :=
  let stem := match Lib.rsplitOnce ['.'] fileName.toList with
    | some (before, _) => before
    | none => fileName.toList
  match splitTitleIndex stem with
  | none => { pfx := String.ofList stem, titleIndex := none }
  | some (head, index) =>
    { pfx := String.ofList (stripSuffix "_title".toList head), titleIndex := some index }

/-- `char::is_whitespace`: the characters with the Unicode property `White_Space`. -/
def isWhitespace (c : Char) : Bool :=
  (9 ≤ c.toNat && c.toNat ≤ 13) || (0x2000 ≤ c.toNat && c.toNat ≤ 0x200A) ||
    [0x20, 0x85, 0xA0, 0x1680, 0x2028, 0x2029, 0x202F, 0x205F, 0x3000].contains c.toNat

/-- A display title: underscores and white space become single spaces. -/
def displayTitle (pfx : String) : String :=
  " ".intercalate (((pfx.toList.splitOnP fun c => c == '_' || isWhitespace c).filter
    fun part => !part.isEmpty).map String.ofList)

example : parseRipName "The_Matrix_title_t12.mkv" = ⟨"The_Matrix", some 12⟩ := by decide

example : parseRipName "Night_train.mkv" = ⟨"Night_train", none⟩ := by decide

end Loku
