import FplCompiler.Proofs.OrderlyPrograms

/-!
What finished code refers to. A pass deletes jumps to the next instruction and labels that nothing jumps to, and
allocation changes registers only, so that each jump still finds its label and nothing new is referred to.
-/

namespace FplCompiler

variable {instr : Instr}

namespace Ir

open Codegen (targets placedLabels placed? isLocal)

namespace Function

variable {function : Function}

theorem simpler?_isLocal {place : Nat} {other : Instr}
    (simpler : function.simpler? place instr = some other) : isLocal other = true ∧
      (isLocal instr = true ∨ (∃ label, instr = .jump label) ∨
        ∃ label, instr = .label label ∧ function.index.jumpCount label = 0) := by
  rcases simpler?_cases simpler with ⟨rfl, pure | jump | unused⟩ | ⟨_, _, _, _, _, _, rfl, rfl⟩ | ⟨_, _, _, _, _, rfl, rfl⟩
  · exact ⟨rfl, Or.inl (by cases instr <;> first | rfl | cases pure)⟩
  · exact ⟨rfl, Or.inr (Or.inl jump)⟩
  · exact ⟨rfl, Or.inr (Or.inr unused)⟩
  · exact ⟨rfl, Or.inl rfl⟩
  · exact ⟨rfl, Or.inl rfl⟩

/-- A later stage of a pass: labels that something jumps to stay, and nothing new is referred to. -/
structure Pruned (function later : Function) : Prop where
  name : later.name = function.name
  labelCount : later.labelCount = function.labelCount
  index : later.index = function.index
  targets : targets later.code ⊆ targets function.code
  placed : (placedLabels later.code).Sublist (placedLabels function.code)
  kept : ∀ label ∈ placedLabels function.code, label ∈ Codegen.targets function.code → label ∈ placedLabels later.code
  code : ∀ instr ∈ later.code, instr ∈ function.code ∨ isLocal instr = true

theorem Pruned.refl (function : Function) : function.Pruned function :=
  ⟨rfl, rfl, rfl, List.Subset.refl _, List.Sublist.refl _, fun _ placed _ => placed, fun _ => Or.inl⟩

theorem placed?_of_isLocal (local_ : isLocal instr = true) : placed? instr = none := by
  cases instr <;> first | rfl | cases local_

theorem target?_of_isLocal (local_ : isLocal instr = true) : instr.target? = none := by
  cases instr <;> first | rfl | cases local_

theorem Pruned.simplifyAt {later : Function} (pruned : function.Pruned later) (indexed : function.Indexed)
    (joined : Codegen.Joined function) (place : Nat) : function.Pruned (later.simplifyAt place) := by
  simp only [Function.simplifyAt]
  split
  case h_2 => exact pruned
  rename_i other found
  obtain ⟨instr, here, simpler⟩ := Option.bind_eq_some_iff.mp found
  obtain ⟨local_, deleted⟩ := simpler?_isLocal simpler
  obtain ⟨front, back, code, newCode⟩ := toList_modify_of_getElem? here other
  have oldLabels : placedLabels later.code =
      front.filterMap placed? ++ ((placed? instr).toList ++ back.filterMap placed?) := by
    cases placed : placed? instr <;> simp [placedLabels, code, placed]
  have newLabels : placedLabels (later.code.modify place fun _ => other) =
      front.filterMap placed? ++ back.filterMap placed? := by
    rw [placedLabels, newCode]
    simp [placed?_of_isLocal local_]
  have fewer : (placedLabels (later.code.modify place fun _ => other)).Sublist (placedLabels later.code) := by
    rw [oldLabels, newLabels]
    exact (List.Sublist.refl _).append (List.sublist_append_right _ _)
  refine ⟨pruned.name, pruned.labelCount, pruned.index, ?_, fewer.trans pruned.placed, fun label placed jumped => ?_, ?_⟩
  · refine List.Subset.trans (fun label member => ?_) pruned.targets
    rw [Codegen.targets, newCode] at member
    rw [Codegen.targets, code]
    simp only [List.filterMap_append, List.filterMap_cons, target?_of_isLocal local_, List.mem_append] at member ⊢
    refine member.imp_right fun late => ?_
    cases instr.target? <;> simp [late]
  · have before := pruned.kept label placed jumped
    rw [oldLabels] at before
    rw [newLabels]
    rcases List.mem_append.mp before with early | later_
    · exact List.mem_append_left _ early
    rcases List.mem_append.mp later_ with here | late
    · -- Only a label that nothing jumps to is deleted.
      rcases deleted with local_ | ⟨_, rfl⟩ | ⟨deletedLabel, rfl, unused⟩
      · simp [placed?_of_isLocal local_] at here
      · cases here
      · obtain rfl : label = deletedLabel := by simpa [placed?] using here
        obtain ⟨jump, inside, jumps⟩ := List.mem_filterMap.mp jumped
        have counted := (indexed.jumpCount_pos_iff (joined.handed label placed)).mpr
          ⟨jump, Array.mem_toList_iff.mp inside, jumps⟩
        rw [pruned.index] at unused
        omega
    · exact List.mem_append_right _ late
  · intro instr member
    have inside := Array.mem_toList_iff.mpr member
    simp only [newCode, List.mem_append, List.mem_cons] at inside
    rcases inside with early | rfl | late
    · exact pruned.code instr (Array.mem_toList_iff.mp (by simp [code, early]))
    · exact Or.inr local_
    · exact pruned.code instr (Array.mem_toList_iff.mp (by simp [code, late]))

theorem simplifyOnce_pruned (indexed : function.Indexed) (joined : Codegen.Joined function) :
    function.Pruned function.simplifyOnce :=
  List.foldlRecOn _ _ (.refl function) fun _ pruned place _ => pruned.simplifyAt indexed joined place

end Function

end Ir

namespace Codegen

open Ir

structure Linked (table : Declarations) (program : Ir.Program) (name : String) (function : Ir.Function) : Prop where
  name : function.name = name
  joined : Joined function
  refers : ∀ instr ∈ function.code, Refers table program instr

variable {table : Declarations} {program : Ir.Program} {name : String} {function later : Ir.Function}

theorem refers_of_isLocal (local_ : isLocal instr = true) : Refers table program instr := by
  cases instr <;> trivial

theorem Joined.pruned (joined : Joined function) (pruned : function.Pruned later) : Joined later where
  apart := pruned.placed.nodup joined.apart
  handed label placed := pruned.labelCount ▸ joined.handed label (pruned.placed.subset placed)
  reached label jumped := pruned.kept label (joined.reached label (pruned.targets jumped)) (pruned.targets jumped)

theorem Linked.pruned (linked : Linked table program name function) (pruned : function.Pruned later) :
    Linked table program name later where
  name := pruned.name.trans linked.name
  joined := linked.joined.pruned pruned
  refers instr member := (pruned.code instr member).elim (linked.refers instr) refers_of_isLocal

theorem Linked.rebuild {rebuilt : Ir.Function} (linked : Linked table program name function)
    (done : function.rebuild = .ok rebuilt) : Linked table program name rebuilt := by
  have labels : placedLabels rebuilt.code = placedLabels function.code := by
    rw [Function.rebuild_eq done]
    simp only [placedLabels, Array.toList_filter, List.filterMap_filter]
    refine List.filterMap_congr fun instr _ => ?_
    cases instr <;> rfl
  have jumps : targets rebuilt.code = targets function.code := by
    rw [Function.rebuild_eq done]
    simp only [targets, Array.toList_filter, List.filterMap_filter]
    refine List.filterMap_congr fun instr _ => ?_
    cases instr <;> rfl
  have count : rebuilt.labelCount = function.labelCount := by rw [Function.rebuild_eq done]
  refine ⟨?_, ⟨labels ▸ linked.joined.apart, ?_, ?_⟩, fun instr member => ?_⟩
  · rw [Function.rebuild_eq done]
    exact linked.name
  · rw [labels, count]
    exact linked.joined.handed
  · rw [labels, jumps]
    exact linked.joined.reached
  · rw [Function.rebuild_eq done] at member
    exact linked.refers instr (Array.mem_filter.mp member).1

theorem Linked.simplify {simplified : Ir.Function} (linked : Linked table program name function)
    (done : function.simplify = .ok simplified) : Linked table program name simplified := by
  refine Function.simplifyWithin_rounds (fun before made => ?_) linked done
  have rebuilt := before.rebuild made
  exact ⟨rebuilt, rebuilt.pruned (Function.simplifyOnce_pruned (Function.rebuild_indexed made) rebuilt.joined)⟩

theorem refers_mapRegisters (rename : Reg → Reg) (refers : Refers table program instr) :
    Refers table program (instr.mapRegisters rename) := by
  cases instr <;> exact refers

theorem Linked.allocate {live : LiveMap} {allocated : Ir.Function} (linked : Linked table program name function)
    (done : function.allocate live = .ok allocated) : Linked table program name allocated := by
  simp only [Function.allocate] at done
  split at done
  · cases done
  rename_i state _
  simp only [Except.ok.injEq] at done
  subst allocated
  let rename := fun register => (state.home? register).getD register
  have labels : placedLabels (function.code.map (Instr.mapRegisters rename)) = placedLabels function.code := by
    simp only [placedLabels, Array.toList_map, List.filterMap_map]
    refine List.filterMap_congr fun instr _ => ?_
    cases instr <;> rfl
  have jumps : targets (function.code.map (Instr.mapRegisters rename)) = targets function.code := by
    simp only [targets, Array.toList_map, List.filterMap_map]
    refine List.filterMap_congr fun instr _ => ?_
    cases instr <;> rfl
  refine ⟨linked.name, ⟨?_, ?_, ?_⟩, fun instr member => ?_⟩
  · exact labels.symm ▸ linked.joined.apart
  · exact labels.symm ▸ linked.joined.handed
  · rw [jumps]
    exact labels.symm ▸ linked.joined.reached
  · obtain ⟨old, inside, rfl⟩ := Array.mem_map.mp member
    exact refers_mapRegisters rename (linked.refers old inside)

theorem Linked.finish {finished : Ir.Function} (linked : Linked table program name function)
    (done : function.finish = .ok finished) : Linked table program name finished := by
  obtain ⟨simplified, allocated, simplifies, allocates, resimplifies⟩ := Function.finish_eq done
  exact ((linked.simplify simplifies).allocate allocates).simplify resimplifies

theorem finishAll {functions results : List Ir.Function}
    (supplied : ∀ function ∈ functions, Joined function ∧ ∀ instr ∈ function.code, Refers table program instr)
    (done : functions.mapM Function.finish = .ok results) :
    (∀ function ∈ results, Joined function ∧ ∀ instr ∈ function.code, Refers table program instr) ∧
      results.map Function.name = functions.map Function.name := by
  induction functions generalizing results with
  | nil =>
    cases done
    exact ⟨supplied, rfl⟩
  | cons function rest ih =>
    obtain ⟨first, others⟩ := List.forall_mem_cons.mp supplied
    rw [List.mapM_cons] at done
    simp only [bind, Except.bind] at done
    split at done
    · cases done
    rename_i finished finishes
    split at done
    · cases done
    rename_i further mapped
    cases done
    have linked : Linked table program function.name finished := Linked.finish ⟨rfl, first.1, first.2⟩ finishes
    obtain ⟨allLinked, names⟩ := ih others mapped
    exact ⟨List.forall_mem_cons.mpr ⟨⟨linked.joined, linked.refers⟩, allLinked⟩,
      by rw [List.map_cons, linked.name, names, List.map_cons]⟩

theorem Supplied.finish {finished : Ir.Program} (supplied : Supplied table program) (done : program.finish = .ok finished) :
    Supplied table finished ∧ finished.functions.map Function.name = program.functions.map Function.name := by
  simp only [Ir.Program.finish, bind, Except.bind] at done
  split at done
  · cases done
  rename_i functions mapped
  cases done
  obtain ⟨linked, names⟩ := finishAll supplied.done mapped
  refine ⟨⟨fun function member => ?_, supplied.classes, supplied.classesApart, supplied.tables,
    supplied.tablesApart⟩, names⟩
  obtain ⟨joined, refers⟩ := linked function member
  exact ⟨joined, fun instr inside => (refers instr inside).mono ⟨List.prefix_rfl, List.Subset.refl _, List.Subset.refl _⟩⟩

end Codegen

end FplCompiler
