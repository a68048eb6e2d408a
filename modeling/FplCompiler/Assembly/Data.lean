import FplCompiler.Ir.Program
import FplCompiler.Text.Quoted

/-! The data section: texts, class descriptors and enum tables. -/

namespace FplCompiler.Assembly

open Ir

/-- A word of up to four bytes, the first of them the lowest. -/
def packWord (bytes : List UInt8) : UInt32 :=
  bytes.zipIdx.foldl (fun word (byte, index) => word ||| byte.toUInt32 <<< (8 * UInt32.ofNat index)) 0

def packWords : List UInt8 → List UInt32
  | [] => []
  | first :: second :: third :: fourth :: rest =>
    packWord [first, second, third, fourth] :: packWords rest
  | bytes => [packWord bytes]

def wordText (word : UInt32) : String :=
  let digits := Nat.toDigits 16 word.toNat
  "0x" ++ String.ofList (List.replicate (8 - digits.length) '0' ++ digits)

def stringLines (text : String) (index : Nat) : List String :=
  let bytes := text.toUTF8.toList
  ["dcw " ++ toString bytes.length, (StaticData.string index).label ++ ": # " ++ Text.quoted text] ++
    (packWords bytes).map (fun word => "dcw " ++ wordText word) ++ [""]

def classLines (cls : ClassDescriptor) : List String :=
  [(StaticData.classDescriptor cls.name).label ++ ":", "dcw " ++ toString cls.size, ""]

def entryLine : TableEntry → String
  | .int value => "dcw " ++ toString value
  | .string index => "dcw " ++ (StaticData.string index).label

def tableLines (table : EnumTable) : List String :=
  [table.label ++ ":"] ++ table.entries.map entryLine ++ [""]

def dataLines (program : Program) : List String :=
  (program.strings.texts.toList.zipIdx.map fun (text, index) => stringLines text index).flatten ++
    (program.classes.map classLines).flatten ++ (program.tables.map tableLines).flatten

end FplCompiler.Assembly
