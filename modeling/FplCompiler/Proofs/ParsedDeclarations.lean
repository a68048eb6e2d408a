import FplCompiler.Proofs.LineByLine
import FplCompiler.Proofs.TokenTiling
import FplCompiler.Syntax.Program

/-!
The functions and classes of a program stand at different places. A statement that is read stands where its keyword was
stepped over, the keywords of a file follow each other, and an `else` closes its chain.
-/

namespace FplCompiler

variable {file : FileId} {offset : Nat}

namespace Syntax

theorem keywordPlaces_concat {token : Token} (tokens : List Token) (plain : token.kind.declares = false) :
    keywordPlaces (tokens ++ [token]) = keywordPlaces tokens := by
  simp [keywordPlaces, plain]

theorem statements_stand (tokens : List Token) :
    (placesIn (statements tokens).1).Sublist (keywordPlaces tokens) ∧ ElseLastIn (statements tokens).1 := by
  let size := (TokenStream.ofTokens tokens).rest.length + 1
  have enough : (TokenStream.ofTokens tokens).rest.length < min size (min size size) := by simp [size]
  obtain ⟨taken, ⟨places, elseLast⟩, passes⟩ := (statements_alike enough).2
  refine ⟨?_, elseLast⟩
  rw [places]
  obtain ⟨front, stop, same, eof, whole⟩ := ofTokens_ends tokens
  have plain : stop.kind.declares = false := by rw [eof]; rfl
  have within := (List.sublist_append_left _ _).trans passes
  rw [same, keywordPlaces_concat front plain] at within
  rcases whole with rfl | rfl
  · rwa [keywordPlaces_concat front plain]
  · exact within

end Syntax

structure Ordered (file : FileId) (offset : Nat) (spans : List Span) : Prop where
  increasing : spans.Pairwise fun first second => first.start < second.start
  within : ∀ span ∈ spans, span.file = file ∧ offset ≤ span.start

theorem Tiles.ordered {text : List Char} {tokens : List Token}
    (tiles : Tiles file offset text tokens) : Ordered file offset (Syntax.keywordPlaces tokens) := by
  induction tiles with
  | @last _ _ token _ kind _ =>
    have plain : token.kind.declares = false := by rw [kind]; rfl
    exact ⟨by simp [Syntax.keywordPlaces, plain], by simp [Syntax.keywordPlaces, plain]⟩
  | @cons offset gap source _ token tokens _ _ span covers _ _ ih =>
    by_cases keyword : token.kind.declares = true
    · have text : source ≠ [] :=
        covers (by generalize token.kind = kind at keyword; cases kind <;> first | rfl | cases keyword)
      have some := byteCount_pos text
      have start : token.span.start = offset + byteCount gap := by rw [span]
      rw [Syntax.keywordPlaces_cons keyword]
      constructor
      · refine .cons (fun later member => ?_) ih.increasing
        have behind := (ih.within later member).2
        omega
      · intro later member
        cases member with
        | head => exact ⟨by rw [span], by omega⟩
        | tail _ member =>
          have behind := ih.within later member
          exact ⟨behind.1, by omega⟩
    · have same : Syntax.keywordPlaces (token :: tokens) = Syntax.keywordPlaces tokens := by
        simp [Syntax.keywordPlaces, keyword]
      rw [same]
      exact ⟨ih.increasing, fun later member => (ih.within later member).imp_right (by omega)⟩

theorem Ordered.nodup {spans : List Span} (ordered : Ordered file offset spans) :
    spans.Nodup :=
  ordered.increasing.imp fun before same => by
    rw [same] at before
    exact Nat.lt_irrefl _ before

theorem Ordered.sublist {spans fewer : List Span} (ordered : Ordered file offset spans)
    (within : fewer.Sublist spans) : Ordered file offset fewer :=
  ⟨ordered.increasing.sublist within, fun span member => ordered.within span (within.subset member)⟩

namespace Syntax

theorem parseFile_statements (sources : SourceMap) (file : FileId) :
    (parseFile sources file).tree.statements = (statements (scan file (sources.get file).text).tokens).1 := by
  simp only [parseFile]

theorem parseFile_ordered (sources : SourceMap) (file : FileId) :
    Ordered file 0 (placesIn (parseFile sources file).tree.statements) := by
  rw [parseFile_statements]
  have tiles := scanFrom_tiles file _ (Scanner.ofText (sources.get file).text) (ofText_left_lt _) (Nat.le_refl 1)
  exact tiles.ordered.sublist (statements_stand _).1

theorem trees_ofSources (sources : SourceMap) (files : List FileId) :
    (Program.ofSources sources files).trees = files.map fun file => (parseFile sources file).tree := by
  rw [Program.trees, Program.ofSources, List.map_map]
  rfl

theorem ofSources_places_nodup (sources : SourceMap) {files : List FileId} (distinct : files.Nodup) :
    ((Program.ofSources sources files).trees.flatMap fun tree => placesIn tree.statements).Nodup := by
  rw [trees_ofSources, List.flatMap_map, List.Nodup, List.pairwise_flatMap]
  refine ⟨fun file _ => (parseFile_ordered sources file).nodup, distinct.imp ?_⟩
  rintro first second different span one _ other rfl
  have inFirst := ((parseFile_ordered sources first).within span one).1
  have inSecond := ((parseFile_ordered sources second).within span other).1
  exact different (inFirst.symm.trans inSecond)

theorem ofSources_elseLast (sources : SourceMap) (files : List FileId) :
    ∀ tree ∈ (Program.ofSources sources files).trees, ElseLastIn tree.statements := by
  intro tree member
  rw [trees_ofSources] at member
  obtain ⟨file, _, same⟩ := List.mem_map.mp member
  rw [← same, parseFile_statements]
  generalize (scan file (sources.get file).text).tokens = tokens
  exact (statements_stand tokens).2

end Syntax

end FplCompiler
