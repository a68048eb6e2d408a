import FplCompiler.Assembly.Data
import FplCompiler.Proofs.Numerals
import Mathlib.Data.List.Basic
import Mathlib.Data.List.Induction
import Mathlib.Data.Nat.Digits.Defs

/-!
The texts of a program and their data. A text has one index however often it is used, and the lines of the data section
under the label of that index can be read back: they are the bytes of the text, padded to whole words.
-/

namespace FplCompiler

namespace StringPool

theorem lookup_zipIdx (texts : List String) (start : Nat) (text : String) :
    (texts.zipIdx start).lookup text = (texts.idxOf? text).map (start + ·) := by
  induction texts generalizing start with
  | nil => rfl
  | cons first rest ih =>
    rw [List.zipIdx_cons, List.lookup_cons, List.idxOf?_cons]
    by_cases same : text = first
    · simp [same]
    · have other : (first == text) = false := beq_false_of_ne (Ne.symm same)
      rw [beq_false_of_ne same, ih, other]
      cases rest.idxOf? text with
      | none => rfl
      | some index => exact congrArg some (Nat.add_right_comm start 1 index)

/-- Pools with the same texts have the same table of indices. -/
theorem eq_of_texts {one two : StringPool} (same : one.texts = two.texts) : one = two := by
  obtain ⟨texts, indexes, listed⟩ := one
  obtain ⟨_, _, listedToo⟩ := two
  subst same listed listedToo
  rfl

theorem intern_eq (pool : StringPool) (text : String) : pool.intern text =
    (pool.texts.toList.idxOf text, if text ∈ pool.texts then pool else pool.add text) := by
  have search : pool.indexes.lookup text = pool.texts.toList.idxOf? text := by
    rw [pool.listed, lookup_zipIdx]
    simp
  rw [intern, search, List.idxOf_eq_getD_idxOf?]
  cases found : pool.texts.toList.idxOf? text with
  | some index =>
    have member : text ∈ pool.texts.toList := by
      by_contra absent
      simp [List.idxOf?_eq_none_iff.mpr absent] at found
    rw [if_pos (Array.mem_toList_iff.mp member)]
    rfl
  | none =>
    have absent := List.idxOf?_eq_none_iff.mp found
    rw [if_neg fun member => absent (Array.mem_toList_iff.mpr member)]
    rfl

/-- Interns texts one after the other, and gives the index of each. -/
def internAll (texts : List String) : List Nat × StringPool :=
  texts.foldl (fun done text => (done.1 ++ [(done.2.intern text).1], (done.2.intern text).2)) ([], empty)

theorem idxOf_eraseDups {texts : List String} {text : String} (member : text ∈ texts) (more : List String) :
    (texts ++ more).eraseDups.idxOf text = texts.eraseDups.idxOf text := by
  rw [List.eraseDups_append, List.idxOf_append_of_mem (List.mem_eraseDups.mpr member)]

/-- A pool is the texts in it without repetitions. -/
def ofTexts (texts : List String) : StringPool :=
  ⟨texts.eraseDups.toArray, texts.eraseDups.zipIdx, rfl⟩

theorem ofTexts_append (texts : List String) (text : String) :
    ofTexts (texts ++ [text]) = if text ∈ texts then ofTexts texts else (ofTexts texts).add text := by
  apply eq_of_texts
  split
  · simp [ofTexts, List.eraseDups_append, List.removeAll, *]
  · simp [ofTexts, add, List.eraseDups_append, List.removeAll, List.eraseDups_cons, *]

theorem internAll_eq (texts : List String) : internAll texts = (texts.map texts.eraseDups.idxOf, ofTexts texts) := by
  induction texts using List.reverseRecOn with
  | nil => rfl
  | append_singleton texts text ih =>
    have one : internAll (texts ++ [text]) =
        ((internAll texts).1 ++ [((internAll texts).2.intern text).1], ((internAll texts).2.intern text).2) := by
      rw [internAll, List.foldl_append]
      rfl
    have early : texts.map (texts ++ [text]).eraseDups.idxOf = texts.map texts.eraseDups.idxOf :=
      List.map_congr_left fun _ member => idxOf_eraseDups member [text]
    rw [one, ih, intern_eq, List.map_append, early, ofTexts_append]
    by_cases member : text ∈ texts
    · simp [ofTexts, List.eraseDups_append, List.removeAll, member]
    · simp [ofTexts, List.eraseDups_append, List.removeAll, member, List.idxOf_append, List.eraseDups_cons]

end StringPool

namespace Assembly

open Ir

/-- What is shifted to the next byte does not meet the bytes below. -/
theorem pack_toNat {word : UInt32} {index : Nat} (byte : UInt8) (few : index < 4) (small : word.toNat < 256 ^ index) :
    (word ||| byte.toUInt32 <<< (8 * UInt32.ofNat index)).toNat = word.toNat + 256 ^ index * byte.toNat := by
  have less := byte.toNat_lt
  have places : ∀ index < 4, (8 * UInt32.ofNat index).toNat = 8 * index := by decide
  have power : 256 ^ index = 2 ^ (8 * index) := pow_mul 2 8 index |>.symm
  have fits : byte.toNat <<< (8 * index) < 2 ^ 32 :=
    calc byte.toNat <<< (8 * index) = byte.toNat * 2 ^ (8 * index) := Nat.shiftLeft_eq ..
      _ < 2 ^ 8 * 2 ^ (8 * index) := Nat.mul_lt_mul_of_pos_right less (Nat.two_pow_pos _)
      _ = 2 ^ (8 + 8 * index) := (Nat.pow_add ..).symm
      _ ≤ 2 ^ 32 := Nat.pow_le_pow_right (by decide) (by omega)
  rw [UInt32.toNat_or, UInt32.toNat_shiftLeft, places index few, UInt8.toNat_toUInt32,
    Nat.mod_eq_of_lt (by omega : 8 * index < 32), Nat.mod_eq_of_lt fits, Nat.or_comm,
    ← Nat.shiftLeft_add_eq_or_of_lt (power ▸ small), Nat.shiftLeft_eq, power]
  ring

theorem foldl_pack_toNat (bytes : List UInt8) (word : UInt32) (index : Nat) (few : index + bytes.length ≤ 4)
    (small : word.toNat < 256 ^ index) :
    ((bytes.zipIdx index).foldl
      (fun word (byte, index) => word ||| byte.toUInt32 <<< (8 * UInt32.ofNat index)) word).toNat =
      word.toNat + 256 ^ index * Nat.ofDigits 256 (bytes.map UInt8.toNat) := by
  induction bytes generalizing word index with
  | nil => simp
  | cons byte rest ih =>
    have less := byte.toNat_lt
    rw [List.length_cons] at few
    have packed := pack_toNat byte (by omega) small
    rw [List.zipIdx_cons, List.foldl_cons, ih _ _ (by omega), packed]
    · rw [List.map_cons, Nat.ofDigits_cons]
      ring
    · rw [packed, pow_succ]
      nlinarith

theorem packWord_toNat {bytes : List UInt8} (few : bytes.length ≤ 4) :
    (packWord bytes).toNat = Nat.ofDigits 256 (bytes.map UInt8.toNat) := by
  have packed := foldl_pack_toNat bytes 0 0 (by omega) (by decide)
  rw [packWord, packed]
  simp

/-- The bytes of a word, the lowest first. -/
def wordBytes : Nat → Nat → List UInt8
  | 0, _ => []
  | count + 1, word => UInt8.ofNat word :: wordBytes count (word / 256)

theorem wordBytes_ofDigits (count : Nat) (bytes : List UInt8) (fits : bytes.length ≤ count) :
    wordBytes count (Nat.ofDigits 256 (bytes.map UInt8.toNat)) = bytes ++ List.replicate (count - bytes.length) 0 := by
  induction count generalizing bytes with
  | zero =>
    obtain rfl := List.length_eq_zero_iff.mp (Nat.le_zero.mp fits)
    rfl
  | succ count ih =>
    cases bytes with
    | nil =>
      have zeros := ih [] (Nat.zero_le _)
      rw [List.map_nil, Nat.ofDigits_nil] at zeros ⊢
      rw [wordBytes, Nat.zero_div, zeros]
      rfl
    | cons byte rest =>
      have less := byte.toNat_lt
      rw [List.map_cons, Nat.ofDigits_cons]
      generalize value : Nat.ofDigits 256 (rest.map UInt8.toNat) = others
      have low : UInt8.ofNat (byte.toNat + 256 * others) = byte := by
        apply UInt8.toNat_inj.mp
        simp
      have high : (byte.toNat + 256 * others) / 256 = others := by omega
      rw [wordBytes, low, high, ← value, ih rest (Nat.le_of_succ_le_succ fits)]
      simp

theorem wordBytes_packWord {bytes : List UInt8} (few : bytes.length ≤ 4) :
    wordBytes 4 (packWord bytes).toNat = bytes ++ List.replicate (4 - bytes.length) 0 := by
  rw [packWord_toNat few, wordBytes_ofDigits 4 bytes few]

theorem wordBytes_packWords (bytes : List UInt8) :
    ∃ padding < 4, (packWords bytes).flatMap (fun word => wordBytes 4 word.toNat) =
      bytes ++ List.replicate padding 0 := by
  fun_induction packWords bytes with
  | case1 => exact ⟨0, by decide, rfl⟩
  | case2 first second third fourth rest ih =>
    obtain ⟨padding, few, same⟩ := ih
    refine ⟨padding, few, ?_⟩
    have whole : [first, second, third, fourth].length ≤ 4 := Nat.le_refl 4
    rw [List.flatMap_cons, wordBytes_packWord whole, same]
    rfl
  | case3 bytes some several =>
    have positive := List.length_pos_of_ne_nil some
    have few : bytes.length < 4 := by
      rcases bytes with _ | ⟨first, _ | ⟨second, _ | ⟨third, _ | ⟨fourth, rest⟩⟩⟩⟩
      case cons.cons.cons.cons => exact (several _ _ _ _ _ rfl).elim
      all_goals simp
    refine ⟨4 - bytes.length, by omega, ?_⟩
    rw [List.flatMap_singleton, wordBytes_packWord (Nat.le_of_lt few)]

/-- What stands before the colon of a line. -/
def lineLabel (line : String) : List Char :=
  line.toList.takeWhile (· ≠ ':')

/-- Reads the data under a label: the number in the line before it, and the bytes of the words after it. -/
def dataAt? (label : String) : List String → Option (Nat × List UInt8)
  | size :: mark :: rest =>
    if lineLabel mark = label.toList then do
      let count ← Syntax.numeral? 10 (size.toList.drop 4)
      let words ← (rest.takeWhile (· ≠ "")).mapM fun word => Syntax.numeral? 16 (word.toList.drop 6)
      return (count, words.flatMap (wordBytes 4))
    else dataAt? label (mark :: rest)
  | _ => none

theorem numeral?_wordText (word : UInt32) :
    Syntax.numeral? 16 (("dcw " ++ wordText word).toList.drop 6) = some word.toNat := by
  have digits : ("dcw " ++ wordText word).toList.drop 6 =
      List.replicate (8 - (Nat.toDigits 16 word.toNat).length) '0' ++ Nat.toDigits 16 word.toNat := by
    simp [wordText]
  rw [digits, Syntax.numeral?_padded (by decide) (by decide)]

theorem label_toList (index : Nat) : (StaticData.string index).label.toList = "OBJ".toList ++ Nat.toDigits 10 index := by
  simp [StaticData.label, toString]

theorem lineLabel_mark (index : Nat) (remark : String) :
    lineLabel ((StaticData.string index).label ++ ": # " ++ remark) = (StaticData.string index).label.toList := by
  have plain : ∀ character ∈ (StaticData.string index).label.toList, decide (character ≠ ':') = true := by
    rw [label_toList]
    have digits : ∀ digit ∈ Nat.toDigits 10 index, digit ≠ ':' := by
      rintro _ member rfl
      cases Nat.isDigit_of_mem_toDigits (by decide) (by decide) member
    simpa using digits
  rw [lineLabel, String.toList_append, String.toList_append, List.append_assoc, List.takeWhile_append_of_pos plain]
  exact List.append_nil _

theorem lineLabel_word (value : String) (index : Nat) :
    lineLabel ("dcw " ++ value) ≠ (StaticData.string index).label.toList := by
  rw [label_toList]
  simp [lineLabel]

theorem stringLines_others {text line : String} {other index : Nat} (apart : other ≠ index)
    (member : line ∈ stringLines text other) : lineLabel line ≠ (StaticData.string index).label.toList := by
  simp only [stringLines, List.mem_append, List.mem_cons, List.mem_map, List.not_mem_nil, or_false] at member
  rcases member with ((rfl | rfl) | ⟨word, _, rfl⟩) | rfl
  · exact lineLabel_word _ index
  · rw [lineLabel_mark, label_toList, label_toList]
    exact fun same => apart (Syntax.numbered_injective _ same)
  · exact lineLabel_word _ index
  · rw [label_toList]
    simp [lineLabel]

theorem stringLines_append (text : String) (index : Nat) (back : List String) : stringLines text index ++ back =
    ("dcw " ++ toString text.toUTF8.toList.length) :: ((StaticData.string index).label ++ ": # " ++ Text.quoted text) ::
      ((packWords text.toUTF8.toList).map (fun word => "dcw " ++ wordText word) ++ "" :: back) := by
  simp [stringLines]

theorem mapM_wordText (words : List UInt32) :
    (words.map fun word => "dcw " ++ wordText word).mapM (fun word => Syntax.numeral? 16 (word.toList.drop 6)) =
      some (words.map UInt32.toNat) := by
  induction words with
  | nil => rfl
  | cons word words ih => simp only [List.map_cons, List.mapM_cons, numeral?_wordText, ih]; rfl

theorem dataAt?_stringLines (text : String) (index : Nat) (back : List String) :
    dataAt? (StaticData.string index).label (stringLines text index ++ back) =
      some (text.toUTF8.toList.length, (packWords text.toUTF8.toList).flatMap fun word => wordBytes 4 word.toNat) := by
  have lines : ∀ line ∈ (packWords text.toUTF8.toList).map (fun word => "dcw " ++ wordText word),
      decide (line ≠ "") = true := by
    simp
  have size : Syntax.numeral? 10 (("dcw " ++ toString text.toUTF8.toList.length).toList.drop 4) =
      some text.toUTF8.toList.length := by
    simpa [toString] using Syntax.numeral?_toDigits (by decide : 1 < 10) (by decide) text.toUTF8.toList.length
  rw [stringLines_append, dataAt?, if_pos (lineLabel_mark index _), size, List.takeWhile_append_of_pos lines,
    List.takeWhile_cons_of_neg (by simp), List.append_nil, mapM_wordText]
  simp only [Option.bind_eq_bind, Option.bind_some, List.flatMap_map]
  rfl

theorem dataAt?_append {label size : String} {front : List String} (other : ∀ line ∈ front, lineLabel line ≠ label.toList)
    (otherSize : lineLabel size ≠ label.toList) (rest : List String) :
    dataAt? label (front ++ size :: rest) = dataAt? label (size :: rest) := by
  induction front with
  | nil => rfl
  | cons line front ih =>
    obtain ⟨_, others⟩ := List.forall_mem_cons.mp other
    cases front with
    | nil => exact if_neg otherSize
    | cons next front => exact (if_neg (others next List.mem_cons_self)).trans (ih others)

theorem dataAt?_dataLines (program : Program) {index : Nat} {text : String}
    (found : program.strings.texts.toList[index]? = some text) :
    dataAt? (StaticData.string index).label (dataLines program) =
      some (text.toUTF8.toList.length, (packWords text.toUTF8.toList).flatMap fun word => wordBytes 4 word.toNat) := by
  obtain ⟨inside, same⟩ := List.getElem?_eq_some_iff.mp found
  have count : (program.strings.texts.toList.take index).length = index := List.length_take_of_le (Nat.le_of_lt inside)
  have parts : program.strings.texts.toList =
      program.strings.texts.toList.take index ++ text :: program.strings.texts.toList.drop (index + 1) := by
    rw [← same, List.getElem_cons_drop, List.take_append_drop]
  rw [dataLines, parts, List.zipIdx_append, List.zipIdx_cons, count, Nat.zero_add, List.map_append, List.map_cons,
    List.flatten_append, List.flatten_cons, List.append_assoc, List.append_assoc, List.append_assoc,
    ← dataAt?_stringLines text index, stringLines_append]
  refine dataAt?_append (fun line member => ?_) (lineLabel_word _ index) _
  obtain ⟨_, block, isLine⟩ := List.mem_flatten.mp member
  obtain ⟨⟨other, place⟩, isText, rfl⟩ := List.mem_map.mp block
  have early := List.snd_lt_of_mem_zipIdx isText
  exact stringLines_others (by omega) isLine

/-- Texts are numbered in the order of their first use, so equal ones have one index and others another, and no index
changes later. The data under the label of an index is the text of that index: as many bytes as the size says, in words
that are padded by fewer than four zeros. -/
theorem string_data_decodes (texts : List String) :
    (StringPool.internAll texts).1 = texts.map texts.eraseDups.idxOf ∧
    (∀ first ∈ texts, ∀ second, texts.eraseDups.idxOf first = texts.eraseDups.idxOf second ↔ first = second) ∧
    (∀ more, (StringPool.internAll texts).1 <+: (StringPool.internAll (texts ++ more)).1 ∧
      (StringPool.internAll texts).2.texts.toList <+: (StringPool.internAll (texts ++ more)).2.texts.toList) ∧
    ∀ program : Program, program.strings = (StringPool.internAll texts).2 → ∀ index text,
      texts.eraseDups[index]? = some text → ∃ size unpacked,
        dataAt? (StaticData.string index).label (dataLines program) = some (size, unpacked) ∧
        unpacked.take size = text.toUTF8.toList ∧
        ∃ padding < 4, unpacked = text.toUTF8.toList ++ List.replicate padding 0 := by
  refine ⟨by rw [StringPool.internAll_eq], fun first member second => ?_, fun more => ?_,
    fun program pool index text found => ?_⟩
  · exact List.idxOf_inj (List.mem_eraseDups.mpr member)
  · rw [StringPool.internAll_eq, StringPool.internAll_eq, List.map_append]
    refine ⟨?_, ?_⟩
    · rw [List.map_congr_left fun _ member => StringPool.idxOf_eraseDups member more]
      exact List.prefix_append ..
    · change texts.eraseDups <+: (texts ++ more).eraseDups
      rw [List.eraseDups_append]
      exact List.prefix_append ..
  · obtain ⟨padding, few, whole⟩ := wordBytes_packWords text.toUTF8.toList
    have stored : program.strings.texts.toList[index]? = some text := by
      rw [pool, StringPool.internAll_eq]
      exact found
    have read := dataAt?_dataLines program stored
    rw [whole] at read
    exact ⟨_, _, read, List.take_left .., padding, few, rfl⟩

end Assembly

end FplCompiler
