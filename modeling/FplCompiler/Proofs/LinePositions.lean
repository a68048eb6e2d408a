import FplCompiler.Proofs.TokenTiling
import Mathlib.Data.List.Induction

/-!
Lines and columns of offsets. The search among the starts of lines ends at the last one that is not behind the offset.
Between characters, the line counts the newlines before the offset and the column the characters since the line starts, so
later offsets have later positions.
-/

namespace FplCompiler

theorem byteCount_cons (first : Char) (rest : List Char) : byteCount (first :: rest) = first.utf8Size + byteCount rest :=
  (byteCount_append [first] rest).trans (congrArg (· + byteCount rest) (Nat.zero_add _))

theorem size_utf8Encode (characters : List Char) : characters.utf8Encode.size = byteCount characters := by
  induction characters with
  | nil => rfl
  | cons first rest ih =>
    rw [← List.singleton_append, List.utf8Encode_append, ByteArray.size_append, ih, List.singleton_append, byteCount_cons]
    simp [List.utf8Encode]

theorem characterCount_utf8Encode (characters : List Char) : characterCount characters.utf8Encode = characters.length := by
  have valid : characters.utf8Encode.IsValidUTF8 := ⟨characters, rfl⟩
  have text : String.fromUTF8 characters.utf8Encode valid = String.ofList characters := rfl
  rw [characterCount, String.fromUTF8?, dif_pos valid, text]
  exact String.length_ofList

/-- The bytes between two offsets are those of the characters there. -/
theorem extract_utf8Encode (before between after : List Char) :
    (before ++ between ++ after).utf8Encode.extract (byteCount before) (byteCount (before ++ between)) =
      between.utf8Encode := by
  have first : byteCount before = before.utf8Encode.size + 0 := (size_utf8Encode before).symm
  have last : byteCount (before ++ between) = before.utf8Encode.size + between.utf8Encode.size := by
    rw [byteCount_append, size_utf8Encode, size_utf8Encode]
  rw [List.append_assoc, List.utf8Encode_append, List.utf8Encode_append, first, last, ByteArray.extract_append_size_add]
  exact ByteArray.extract_append_eq_left rfl

/-- A line that starts at or before an offset while the next one starts behind it. -/
structure IsLineOf (starts : Array Nat) (offset : Nat) (line : Fin starts.size) : Prop where
  begins : starts[line] ≤ offset
  ends : ∀ next, starts[line.val + 1]? = some next → offset < next

theorem lineBetween_isLineOf {starts : Array Nat} {offset low high : Nat} {several : low < high}
    {inside : high ≤ starts.size} (lower : starts[low] ≤ offset)
    (upper : ∀ start, starts[high]? = some start → offset < start) :
    IsLineOf starts offset (lineBetween starts offset low high several inside) := by
  -- The line at `low` starts before the offset, and the one at `high`, if there is one, behind it.
  fun_induction lineBetween starts offset low high several inside with
  | case1 low high _ inside several middle early ih => exact ih early upper
  | case2 low high _ inside several middle late ih =>
    refine ih lower fun start found => ?_
    obtain ⟨_, rfl⟩ := Array.getElem?_eq_some_iff.mp found
    exact Nat.lt_of_not_le late
  | case3 low high _ inside single =>
    have last : low + 1 = high := by omega
    exact ⟨lower, fun next found => upper next (last ▸ found)⟩

/-- The line of an offset is the last of those that start before it or there. -/
theorem IsLineOf.val_eq {starts front back : List Nat} {offset : Nat} {line : Fin starts.toArray.size}
    (isLine : IsLineOf starts.toArray offset line) (parts : starts = front ++ back) (upTo : ∀ start ∈ front, start ≤ offset)
    (behind : ∀ start ∈ back, offset < start) : line.val + 1 = front.length := by
  subst parts
  obtain ⟨begins, ends⟩ := isLine
  have found : (front ++ back)[line.val]? = some (front ++ back).toArray[line] := by simp
  apply Nat.le_antisymm
  · by_contra late
    rw [List.getElem?_append_right (by omega)] at found
    have := behind _ (List.mem_of_getElem? found)
    omega
  · by_contra early
    have inside : line.val + 1 < front.length := Nat.lt_of_not_le early
    have next := ends front[line.val + 1] (by simp [List.getElem?_append_left inside, inside])
    have := upTo _ (List.getElem_mem inside)
    omega

theorem SourceFile.lineAt_isLineOf (file : SourceFile) (offset : Nat) :
    IsLineOf file.lineStarts.toArray (min offset file.byteLength) (file.lineAt offset) := by
  refine lineBetween_isLineOf ?_ fun start found => ?_
  · simp [lineStarts]
  · simp at found

/-- The position behind a character. -/
def positionAfter (position : Nat × Nat) (character : Char) : Nat × Nat :=
  if character = '\n' then (position.1 + 1, 1) else (position.1, position.2 + 1)

theorem lineStartsFrom_append (offset : Nat) (before after : List Char) : lineStartsFrom offset (before ++ after) =
    lineStartsFrom offset before ++ lineStartsFrom (offset + byteCount before) after := by
  induction before generalizing offset with
  | nil => rfl
  | cons first rest ih =>
    rw [List.cons_append, lineStartsFrom, lineStartsFrom, ih, byteCount_cons, Nat.add_assoc]
    split <;> rfl

theorem lineStartsFrom_bounds (offset : Nat) (text : List Char) :
    ∀ start ∈ lineStartsFrom offset text, offset < start ∧ start ≤ offset + byteCount text := by
  induction text generalizing offset with
  | nil => simp [lineStartsFrom]
  | cons first rest ih =>
    have positive := first.utf8Size_pos
    have later : ∀ start ∈ lineStartsFrom (offset + first.utf8Size) rest,
        offset < start ∧ start ≤ offset + byteCount (first :: rest) := by
      intro start member
      have bounds := ih (offset + first.utf8Size) start member
      rw [byteCount_cons]
      omega
    rw [lineStartsFrom]
    split
    · refine List.forall_mem_cons.mpr ⟨?_, later⟩
      rw [byteCount_cons]
      omega
    · exact later

/-- Where the last line of a text starts, and the position at its end. -/
structure LastLine (before earlier line : List Char) : Prop where
  parts : before = earlier ++ line
  inside : '\n' ∉ line
  position : before.foldl positionAfter (1, 1) = (before.count '\n' + 1, line.length + 1)
  count : (lineStartsFrom 0 before).length = before.count '\n'
  start : (0 :: lineStartsFrom 0 before).getLast? = some (byteCount earlier)

theorem exists_lastLine (before : List Char) : ∃ earlier line, LastLine before earlier line := by
  induction before using List.reverseRecOn with
  | nil => exact ⟨[], [], rfl, List.not_mem_nil, rfl, rfl, rfl⟩
  | append_singleton before last ih =>
    obtain ⟨earlier, line, parts, inside, position, count, start⟩ := ih
    have starts : lineStartsFrom 0 (before ++ [last]) =
        lineStartsFrom 0 before ++ if last = '\n' then [byteCount (before ++ [last])] else [] := by
      rw [lineStartsFrom_append, byteCount_append, byteCount_cons, Nat.zero_add]
      rfl
    by_cases newline : last = '\n'
    · refine ⟨before ++ [last], [], (List.append_nil _).symm, List.not_mem_nil, ?_, ?_, ?_⟩
      · simp [position, positionAfter, newline]
      · rw [starts, if_pos newline, List.length_append, count, newline, List.count_append]
        rfl
      · rw [starts, if_pos newline, ← List.cons_append, List.getLast?_concat]
    · refine ⟨earlier, line ++ [last], by simp [parts], by simp [inside, Ne.symm newline], ?_, ?_, ?_⟩
      · simp [position, positionAfter, newline]
      · simp [starts, count, newline]
      · simp [starts, newline, start]

/-- The characters before an offset, where those past the end count as the end. -/
structure SourceFile.Precede (file : SourceFile) (before : List Char) (offset : Nat) : Prop where
  begins : before <+: file.text.toList
  bytes : byteCount before = min offset file.byteLength

variable {file : SourceFile} {before earlier line : List Char} {offset : Nat}

theorem SourceFile.Precede.starts (precede : file.Precede before offset) : ∃ after : List Char,
    before ++ after = file.text.toList ∧
      file.lineStarts = (0 :: lineStartsFrom 0 before) ++ lineStartsFrom (byteCount before) after := by
  obtain ⟨after, whole⟩ := precede.begins
  refine ⟨after, whole, ?_⟩
  rw [SourceFile.lineStarts, ← whole, lineStartsFrom_append, Nat.zero_add, List.cons_append]

/-- The starts of lines up to an offset are those behind the newlines before it, so that the line found counts these. -/
theorem SourceFile.Precede.lineAt (precede : file.Precede before offset) :
    (file.lineAt offset).val = (lineStartsFrom 0 before).length := by
  obtain ⟨after, _, starts⟩ := precede.starts
  have bytes := precede.bytes
  have upTo : ∀ start ∈ 0 :: lineStartsFrom 0 before, start ≤ min offset file.byteLength := by
    refine List.forall_mem_cons.mpr ⟨Nat.zero_le _, fun start member => ?_⟩
    have bounds := lineStartsFrom_bounds 0 before start member
    omega
  have behind : ∀ start ∈ lineStartsFrom (byteCount before) after, min offset file.byteLength < start := by
    intro start member
    have bounds := lineStartsFrom_bounds (byteCount before) after start member
    omega
  exact Nat.succ.inj ((file.lineAt_isLineOf offset).val_eq starts upTo behind)

theorem SourceFile.Precede.lineStart (precede : file.Precede before offset) (ends : LastLine before earlier line) :
    file.lineStarts[(file.lineAt offset).val]? = some (byteCount earlier) := by
  obtain ⟨after, _, starts⟩ := precede.starts
  have last := ends.start
  rw [List.getLast?_eq_getElem?, List.length_cons, Nat.add_sub_cancel] at last
  rw [precede.lineAt, starts, List.getElem?_append_left (by simp), last]

theorem SourceFile.Precede.lineColumn (precede : file.Precede before offset) :
    file.lineColumn offset = before.foldl positionAfter (1, 1) := by
  obtain ⟨earlier, line, ends⟩ := exists_lastLine before
  obtain ⟨after, whole, _⟩ := precede.starts
  have start : file.lineStarts.toArray[file.lineAt offset] = byteCount earlier := by
    obtain ⟨_, found⟩ := List.getElem?_eq_some_iff.mp (precede.lineStart ends)
    exact found
  have bytes : file.text.toUTF8 = (earlier ++ line ++ after).utf8Encode := by
    rw [← ends.parts, whole]
    exact String.utf8Encode_toList.symm
  have slice := extract_utf8Encode earlier line after
  rw [← bytes, ← ends.parts, precede.bytes, ← start] at slice
  rw [ends.position, ← ends.count, ← precede.lineAt, SourceFile.lineColumn, slice, characterCount_utf8Encode]

def IsEarlier (first second : Nat × Nat) : Prop :=
  first.1 < second.1 ∨ first.1 = second.1 ∧ first.2 < second.2

theorem isEarlier_foldl (position : Nat × Nat) {more : List Char} (some : more ≠ []) :
    IsEarlier position (more.foldl positionAfter position) := by
  induction more generalizing position with
  | nil => exact absurd rfl some
  | cons first rest ih =>
    have step : IsEarlier position (positionAfter position first) := by
      unfold positionAfter
      split
      · exact .inl (Nat.lt_succ_self _)
      · exact .inr ⟨rfl, Nat.lt_succ_self _⟩
    rw [List.foldl_cons]
    cases rest with
    | nil => exact step
    | cons second rest =>
      have later := ih (positionAfter position first) (List.cons_ne_nil _ _)
      unfold IsEarlier at step later ⊢
      omega

/-- For every offset the search ends at a line that starts before it or there, so that what is counted lies inside the
text. Between two characters the line is one more than the number of newlines before, and the column one more than the
number of characters since the start of that line, which is one of the line starts. From one such offset to a later one the
position increases. -/
theorem line_column_exact (file : SourceFile) :
    (∀ offset, IsLineOf file.lineStarts.toArray (min offset file.byteLength) (file.lineAt offset)) ∧
    (∀ before offset, file.Precede before offset → ∃ earlier line, before = earlier ++ line ∧ '\n' ∉ line ∧
      file.lineColumn offset = (before.count '\n' + 1, line.length + 1) ∧
      file.lineStarts[before.count '\n']? = some (byteCount earlier)) ∧
    ∀ before beforeLater offset later, file.Precede before offset → file.Precede beforeLater later →
      min offset file.byteLength < min later file.byteLength →
        IsEarlier (file.lineColumn offset) (file.lineColumn later) := by
  refine ⟨file.lineAt_isLineOf, fun before offset precede => ?_,
    fun before beforeLater offset later precede precedeLater less => ?_⟩
  · obtain ⟨earlier, line, ends⟩ := exists_lastLine before
    refine ⟨earlier, line, ends.parts, ends.inside, precede.lineColumn.trans ends.position, ?_⟩
    rw [← ends.count, ← precede.lineAt]
    exact precede.lineStart ends
  · rw [precede.lineColumn, precedeLater.lineColumn]
    rw [← precede.bytes, ← precedeLater.bytes] at less
    rcases List.prefix_or_prefix_of_prefix precede.begins precedeLater.begins with ⟨more, rfl⟩ | ⟨more, rfl⟩
    · rw [List.foldl_append]
      refine isEarlier_foldl _ ?_
      rintro rfl
      simp at less
    · rw [byteCount_append] at less
      omega

theorem line_column_exact_afterPound :
    let file := SourceFile.ofText "a.fpl" "a\n£b"
    file.Precede ['a', '\n', '£'] 4 ∧ file.Precede ['a', '\n', '£', 'b'] 9 ∧
      IsEarlier (file.lineColumn 4) (file.lineColumn 9) ∧ ∃ earlier line, ['a', '\n', '£'] = earlier ++ line ∧
        file.lineColumn 4 = (2, line.length + 1) ∧ file.lineStarts[1]? = some (byteCount earlier) := by
  intro file
  have four : file.Precede ['a', '\n', '£'] 4 := ⟨⟨['b'], by decide⟩, by decide⟩
  have nine : file.Precede ['a', '\n', '£', 'b'] 9 := ⟨⟨[], by decide⟩, by decide⟩
  obtain ⟨_, exact_, increasing⟩ := line_column_exact file
  obtain ⟨earlier, line, parts, -, position, start⟩ := exact_ _ _ four
  exact ⟨four, nine, increasing _ _ _ _ four nine (by decide), earlier, line, parts, position, start⟩

end FplCompiler
