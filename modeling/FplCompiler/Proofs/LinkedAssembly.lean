import FplCompiler.Proofs.AcceptedReferences
import FplCompiler.Proofs.FinishedReferences
import FplCompiler.Proofs.Numerals
import FplCompiler.Proofs.ParsedDeclarations
import FplCompiler.Session.Compile

/-!
Assembly without dangling references. A line of the output defines a name, refers to one or does neither. In the output of
every compilation that ends without an error, what lines refer to is defined by a line or is a routine of the runtime, and
no local label is defined twice.
-/

namespace FplCompiler

namespace Assembly

open Ir

variable {name : String} {functions : List Function} {line : Line}

inductive Line where
  | remark (text : String)
  | mark (name : String)
  | textMark (name text : String)
  | step (names : OperandNames) (op : BlockOp)
  | word (value : String)
  | pointer (name : String)
  | blank

namespace Line

def text : Line → String
  | remark text => "# " ++ text
  | mark name => name ++ ":"
  | textMark name text => name ++ ": # " ++ Text.quoted text
  | step names op => op.text names
  | word value => "dcw " ++ value
  | pointer name => "dcw " ++ name
  | blank => ""

def defines : Line → Option String
  | mark name | textMark name _ => some name
  | step names (.code (.label label)) => some (names.label label)
  | _ => none

def refers : Line → Option String
  | step names (.code (.jump label)) | step names (.code (.branch _ _ _ label)) => some (names.label label)
  | step _ (.code (.call target _ _)) => some target
  | step _ (.code (.address _ data)) => some data.label
  | pointer name => some name
  | _ => none

end Line

def functionListing (labelBase : Nat) (function : Function) : List Line :=
  [.mark function.name] ++ function.comments.map .remark ++
    (block function).map (.step (operandNames function labelBase)) ++ [.blank]

def blockListing : Nat → List Function → List Line
  | _, [] => []
  | labelBase, function :: rest =>
    functionListing labelBase function ++ blockListing (labelBase + function.labelCount) rest

def stringListing (text : String) (index : Nat) : List Line :=
  let bytes := text.toUTF8.toList
  [.word (toString bytes.length), .textMark (StaticData.string index).label text] ++
    (packWords bytes).map (fun word => .word (wordText word)) ++ [.blank]

def classListing (cls : ClassDescriptor) : List Line :=
  [.mark (StaticData.classDescriptor cls.name).label, .word (toString cls.size), .blank]

def entryListing : TableEntry → Line
  | .int value => .word (toString value)
  | .string index => .pointer (StaticData.string index).label

def tableListing (table : EnumTable) : List Line :=
  [.mark table.label] ++ table.entries.map entryListing ++ [.blank]

def dataListing (program : Program) : List Line :=
  (program.strings.texts.toList.zipIdx.flatMap fun (text, index) => stringListing text index) ++
    program.classes.flatMap classListing ++ program.tables.flatMap tableListing

def listing (program : Program) : List Line :=
  [.remark "Generated by fplc"] ++ blockListing 0 program.functions ++ dataListing program

theorem blockListing_text (labelBase : Nat) (functions : List Function) :
    (blockListing labelBase functions).map Line.text = blockLines labelBase functions := by
  induction functions generalizing labelBase with
  | nil => rfl
  | cons function rest ih =>
    rw [blockListing, List.map_append, ih]
    simp only [functionListing, List.map_append, List.map_map]
    rfl

theorem dataListing_text (program : Program) : (dataListing program).map Line.text = dataLines program := by
  have strings : ∀ text index, (stringListing text index).map Line.text = stringLines text index := by
    intro text index
    simp only [stringListing, List.map_append, List.map_map]
    rfl
  have entries : ∀ entry, (entryListing entry).text = entryLine entry := by
    intro entry
    cases entry <;> rfl
  have tables : ∀ table, (tableListing table).map Line.text = tableLines table := by
    intro table
    simp only [tableListing, List.map_append, List.map_map]
    exact congrArg (_ :: · ++ [""]) (List.map_congr_left fun entry _ => entries entry)
  simp only [dataListing, List.map_append, List.map_flatMap, strings, tables]
  rfl

theorem listing_text (program : Program) : (listing program).map Line.text = lines program := by
  rw [listing, List.map_append, List.map_append, blockListing_text, dataListing_text]
  rfl

def localLabel (number : Nat) : String :=
  s!"L{number}"

theorem localLabel_toList (number : Nat) : (localLabel number).toList = 'L' :: Nat.toDigits 10 number := by
  simp [localLabel, toString]

theorem localLabel_injective {first second : Nat} (same : localLabel first = localLabel second) : first = second := by
  have digits := congrArg String.toList same
  rw [localLabel_toList, localLabel_toList] at digits
  exact Syntax.numbered_injective ['L'] digits

theorem localLabel_ne_of_slash (slash : '/' ∈ name.toList) (number : Nat) : name ≠ localLabel number := by
  rintro rfl
  rw [localLabel_toList] at slash
  rcases List.mem_cons.mp slash with other | digit
  · cases other
  · have isDigit := Nat.isDigit_of_mem_toDigits (by decide) (by decide) digit
    cases isDigit

theorem frame_plain {frame : Frame} {op : BlockOp} (member : op ∈ frame.entry ++ frame.exit) (names : OperandNames) :
    (Line.step names op).defines = none ∧ (Line.step names op).refers = none := by
  simp only [Frame.entry, Frame.exit, List.mem_append, List.mem_map, List.mem_cons, List.not_mem_nil, or_false] at member
  rcases member with ((rfl | rfl) | ⟨_, _, rfl⟩) | ⟨_, _, rfl⟩ | rfl | rfl <;> exact ⟨rfl, rfl⟩

theorem instrOps_cases (frame? : Option Frame) (instr : Instr) : instrOps frame? instr = [.code instr] ∨
    Codegen.placed? instr = none ∧ ∀ op ∈ instrOps frame? instr, ∀ names,
      (Line.step names op).defines = none ∧ (Line.step names op).refers = none := by
  cases instr with
  | nop => exact .inr ⟨rfl, fun _ member => (by cases member)⟩
  | start =>
    refine .inr ⟨rfl, fun op member names => ?_⟩
    cases frame? with
    | none => cases member
    | some frame => exact frame_plain (List.mem_append_left _ member) names
  | ret returns =>
    refine .inr ⟨rfl, fun op member names => ?_⟩
    rcases List.mem_append.mp member with inside | last
    · cases frame? with
      | none => cases inside
      | some frame => exact frame_plain (List.mem_append_right _ inside) names
    · rw [List.mem_singleton.mp last]
      exact ⟨rfl, rfl⟩
  | _ => exact .inl rfl

theorem block_defines (function : Function) (names : OperandNames) :
    (block function).filterMap (fun op => (Line.step names op).defines) =
      (Codegen.placedLabels function.code).map names.label := by
  unfold block Codegen.placedLabels
  induction function.code.toList with
  | nil => rfl
  | cons instr rest ih =>
    rw [List.flatMap_cons, List.filterMap_append, ih]
    rcases instrOps_cases (Frame.ofFunction? function) instr with itself | ⟨unplaced, plain⟩
    · rw [itself]
      cases instr <;> rfl
    · rw [List.filterMap_eq_nil_iff.mpr fun op member => (plain op member names).1]
      simp [unplaced]

theorem functionListing_defines (labelBase : Nat) (function : Function) :
    (functionListing labelBase function).filterMap Line.defines =
      function.name :: (Codegen.placedLabels function.code).map fun label => localLabel (labelBase + label) := by
  have remarks : (function.comments.map Line.remark).filterMap Line.defines = [] := by simp [Line.defines]
  have steps : ((block function).map (Line.step (operandNames function labelBase))).filterMap Line.defines = _ :=
    List.filterMap_map.trans (block_defines function (operandNames function labelBase))
  rw [functionListing, List.filterMap_append, List.filterMap_append, List.filterMap_append, remarks, steps]
  exact List.append_nil _

theorem dataListing_defines (program : Program) : (dataListing program).filterMap Line.defines =
    (List.range program.strings.texts.size).map (fun index => (StaticData.string index).label) ++
      program.classes.map (fun cls => (StaticData.classDescriptor cls.name).label) ++
        program.tables.map EnumTable.label := by
  have words : ∀ list : List UInt32,
      (list.map fun word => Line.word (wordText word)).filterMap Line.defines = [] := fun _ => by
    simp [Line.defines]
  have strings : ∀ text index, (stringListing text index).filterMap Line.defines = [(StaticData.string index).label] := by
    intro text index
    rw [stringListing, List.filterMap_append, List.filterMap_append, words]
    rfl
  have classes : ∀ cls, (classListing cls).filterMap Line.defines = [(StaticData.classDescriptor cls.name).label] :=
    fun _ => rfl
  have tables : ∀ table, (tableListing table).filterMap Line.defines = [table.label] := by
    intro table
    have entries : (table.entries.map entryListing).filterMap Line.defines = [] := by
      rw [List.filterMap_map, List.filterMap_eq_nil_iff]
      intro entry _
      cases entry <;> rfl
    rw [tableListing, List.filterMap_append, List.filterMap_append, entries]
    rfl
  rw [dataListing, List.filterMap_append, List.filterMap_append, List.filterMap_flatMap, List.filterMap_flatMap,
    List.filterMap_flatMap]
  simp only [strings, classes, tables, ← List.map_eq_flatMap]
  have indices : program.strings.texts.toList.zipIdx.map Prod.snd = List.range program.strings.texts.size := by
    rw [List.zipIdx_map_snd, List.range_eq_range', Array.length_toList]
  rw [← indices, List.map_map]
  rfl

open Codegen (Joined Supplies Supplied Refers IsFunctionLabel)

variable {table : Declarations} {program : Program} {labelBase : Nat}

theorem functionListing_refers {function : Function} (joined : Joined function)
    (refers : ∀ instr ∈ function.code, Refers table program instr)
    (member : line ∈ functionListing labelBase function) (named : line.refers = some name) :
    name ∈ (functionListing labelBase function).filterMap Line.defines ∨
      (∃ routine : Codegen.Routine, name = routine.name) ∨ ∃ data, Supplies table program data ∧ name = data.label := by
  simp only [functionListing, List.mem_append, List.mem_map, List.mem_singleton] at member
  rcases member with ((rfl | ⟨_, _, rfl⟩) | ⟨op, inBlock, rfl⟩) | rfl
  case inl.inr =>
    obtain ⟨instr, inCode, isOp⟩ := List.mem_flatMap.mp inBlock
    rcases instrOps_cases (Frame.ofFunction? function) instr with itself | ⟨_, plain⟩
    · rw [itself] at isOp
      obtain rfl := List.mem_singleton.mp isOp
      have jumps : ∀ label, instr.target? = some label →
          localLabel (labelBase + label) ∈ (functionListing labelBase function).filterMap Line.defines := by
        intro label target
        rw [functionListing_defines]
        refine List.mem_cons_of_mem _ (List.mem_map_of_mem (joined.reached label ?_))
        exact List.mem_filterMap.mpr ⟨instr, inCode, target⟩
      have holds := refers instr (by simpa using inCode)
      cases instr <;> simp only [Line.refers, reduceCtorEq, Option.some.injEq] at named
      case jump label => exact .inl (named ▸ jumps label rfl)
      case branch label => exact .inl (named ▸ jumps label rfl)
      case address dest data => exact .inr (.inr ⟨data, holds, named.symm⟩)
      case call target arguments returns =>
        rcases holds with ⟨routine, same⟩ | declared
        · exact .inr (.inl ⟨routine, named ▸ same⟩)
        · exact .inr (.inr ⟨.function target, declared, named.symm⟩)
    · rw [(plain op isOp _).2] at named
      cases named
  all_goals cases named

theorem blockListing_refers
    (done : ∀ function ∈ functions, Joined function ∧ ∀ instr ∈ function.code, Refers table program instr)
    (member : line ∈ blockListing labelBase functions) (named : line.refers = some name) :
    name ∈ (blockListing labelBase functions).filterMap Line.defines ∨ (∃ routine : Codegen.Routine, name = routine.name) ∨
      ∃ data, Supplies table program data ∧ name = data.label := by
  induction functions generalizing labelBase with
  | nil => cases member
  | cons function rest ih =>
    obtain ⟨first, others⟩ := List.forall_mem_cons.mp done
    rw [blockListing, List.filterMap_append, List.mem_append]
    rcases List.mem_append.mp member with here | later
    · exact (functionListing_refers first.1 first.2 here named).imp_left .inl
    · exact (ih others later).imp_left .inr

theorem names_defined (labelBase : Nat) (functions : List Function) :
    functions.map Function.name ⊆ (blockListing labelBase functions).filterMap Line.defines := by
  induction functions generalizing labelBase with
  | nil => exact List.nil_subset _
  | cons function rest ih =>
    rw [blockListing, List.filterMap_append, functionListing_defines]
    exact List.cons_subset.mpr ⟨by simp, fun name member => List.mem_append_right _ (ih _ member)⟩

theorem listing_defines (program : Program) : (listing program).filterMap Line.defines =
    (blockListing 0 program.functions).filterMap Line.defines ++ (dataListing program).filterMap Line.defines := by
  rw [listing, List.filterMap_append]
  rfl

theorem supplied_defined (functions : ∀ label, IsFunctionLabel table label → label ∈ program.functions.map Function.name)
    {data : StaticData} (supplies : Supplies table program data) :
    data.label ∈ (listing program).filterMap Line.defines := by
  rw [listing_defines, dataListing_defines, List.mem_append, List.mem_append, List.mem_append]
  cases data with
  | string index => exact .inr (.inl (.inl (List.mem_map.mpr ⟨index, List.mem_range.mpr supplies, rfl⟩)))
  | classDescriptor name =>
    obtain ⟨cls, member, rfl⟩ := supplies
    exact .inr (.inl (.inr (List.mem_map_of_mem member)))
  | enumTable enum column =>
    obtain ⟨entry, member, same⟩ := supplies
    exact .inr (.inr (same ▸ List.mem_map_of_mem member))
  | function label => exact .inl (names_defined 0 _ (functions label supplies))

theorem word_of_mem {strings : StringPool} {entries : List TableEntry} {values : List Constant}
    (words : List.Forall₂ (Codegen.Words strings) entries values) {entry : TableEntry} (member : entry ∈ entries) :
    ∃ constant, Codegen.Words strings entry constant := by
  induction words with
  | nil => cases member
  | cons word _ ih =>
    rcases List.mem_cons.mp member with rfl | later
    · exact ⟨_, word⟩
    · exact ih later

theorem dataListing_refers (supplied : Supplied table program) (member : line ∈ dataListing program)
    (named : line.refers = some name) : ∃ data, Supplies table program data ∧ name = data.label := by
  simp only [dataListing, stringListing, classListing, tableListing, List.mem_append, List.mem_flatMap, List.mem_map,
    List.mem_cons, List.not_mem_nil, or_false] at member
  rcases member with (⟨_, _, ((rfl | rfl) | ⟨_, _, rfl⟩) | rfl⟩ | ⟨_, _, rfl | rfl | rfl⟩) |
    ⟨entries, isTable, (rfl | ⟨entry, inside, rfl⟩) | rfl⟩
  case inr.inl.inr =>
    obtain ⟨enum, column, _, _, words⟩ := supplied.tables entries isTable
    obtain ⟨constant, word⟩ := word_of_mem words inside
    cases entry with
    | int value => cases named
    | string index =>
      refine ⟨.string index, ?_, (Option.some.inj named).symm⟩
      cases constant with
      | string text => exact (Array.getElem?_eq_some_iff.mp word).1
      | int _ _ => cases word
      | real _ => cases word
  all_goals cases named

theorem listing_refers (supplied : Supplied table program)
    (functions : ∀ label, IsFunctionLabel table label → label ∈ program.functions.map Function.name)
    (member : line ∈ listing program) (named : line.refers = some name) :
    (∃ routine : Codegen.Routine, name = routine.name) ∨ name ∈ (listing program).filterMap Line.defines := by
  have defined : (∃ data, Supplies table program data ∧ name = data.label) →
      name ∈ (listing program).filterMap Line.defines := by
    rintro ⟨data, supplies, rfl⟩
    exact supplied_defined functions supplies
  rcases List.mem_append.mp member with first | inData
  · rcases List.mem_append.mp first with remark | inBlock
    · rw [List.mem_singleton.mp remark] at named
      cases named
    · rcases blockListing_refers supplied.done inBlock named with own | routine | data
      · rw [listing_defines]
        exact .inr (List.mem_append_left _ own)
      · exact .inl routine
      · exact .inr (defined data)
  · exact .inr (defined (dataListing_refers supplied inData named))

def placedNumbers : Nat → List Function → List Nat
  | _, [] => []
  | labelBase, function :: rest =>
    (Codegen.placedLabels function.code).map (labelBase + ·) ++ placedNumbers (labelBase + function.labelCount) rest

theorem placedNumbers_apart (joined : ∀ function ∈ functions, Joined function) (labelBase : Nat) :
    (placedNumbers labelBase functions).Nodup ∧ ∀ number ∈ placedNumbers labelBase functions, labelBase ≤ number := by
  induction functions generalizing labelBase with
  | nil => exact ⟨List.nodup_nil, fun _ member => (by cases member)⟩
  | cons function rest ih =>
    obtain ⟨first, others⟩ := List.forall_mem_cons.mp joined
    obtain ⟨apart, above⟩ := ih others (labelBase + function.labelCount)
    have own : ∀ number ∈ (Codegen.placedLabels function.code).map (labelBase + ·),
        labelBase ≤ number ∧ number < labelBase + function.labelCount := by
      intro number member
      obtain ⟨label, placed, rfl⟩ := List.mem_map.mp member
      exact ⟨Nat.le_add_right _ _, Nat.add_lt_add_left (first.handed label placed) _⟩
    refine ⟨List.nodup_append.mpr ⟨?_, apart, ?_⟩, List.forall_mem_append.mpr ⟨?_, ?_⟩⟩
    · exact first.apart.map fun _ _ => Nat.add_left_cancel
    · rintro number here other later rfl
      have below := (own number here).2
      have beyond := above number later
      omega
    · exact fun number member => (own number member).1
    · exact fun number member => Nat.le_trans (Nat.le_add_right _ _) (above number member)

theorem blockListing_count
    (names : ∀ function ∈ functions, ∀ number, function.name ≠ localLabel number) (labelBase number : Nat) :
    ((blockListing labelBase functions).filterMap Line.defines).count (localLabel number) =
      (placedNumbers labelBase functions).count number := by
  induction functions generalizing labelBase with
  | nil => rfl
  | cons function rest ih =>
    obtain ⟨first, others⟩ := List.forall_mem_cons.mp names
    have own : (Codegen.placedLabels function.code).map (fun label => localLabel (labelBase + label)) =
        ((Codegen.placedLabels function.code).map (labelBase + ·)).map localLabel := by
      rw [List.map_map]
      rfl
    rw [blockListing, placedNumbers, List.filterMap_append, List.count_append, List.count_append, ih others,
      functionListing_defines, List.count_cons_of_ne (first number), own,
      List.count_map_of_injective _ _ fun _ _ => localLabel_injective]

theorem dataListing_count (program : Program) (tables : ∀ entry ∈ program.tables, '/' ∈ entry.label.toList) (number : Nat) :
    ((dataListing program).filterMap Line.defines).count (localLabel number) = 0 := by
  rw [dataListing_defines, List.count_eq_zero]
  simp only [List.mem_append, List.mem_map]
  rintro ((⟨index, _, same⟩ | ⟨cls, _, same⟩) | ⟨entry, member, same⟩)
  · have letters := congrArg String.toList same
    rw [localLabel_toList] at letters
    simp [StaticData.label, toString] at letters
  · exact localLabel_ne_of_slash (by simp [StaticData.label]) number same
  · exact localLabel_ne_of_slash (tables entry member) number same

theorem listing_count (supplied : Supplied table program)
    (names : ∀ function ∈ program.functions, ∀ number, function.name ≠ localLabel number) (number : Nat) :
    ((listing program).filterMap Line.defines).count (localLabel number) ≤ 1 := by
  have tables : ∀ entry ∈ program.tables, '/' ∈ entry.label.toList := by
    intro entry member
    obtain ⟨enum, column, _, label, _⟩ := supplied.tables entry member
    rw [label]
    simp [StaticData.label]
  have apart := (placedNumbers_apart (fun function member => (supplied.done function member).1) 0).1
  rw [listing_defines, List.count_append, blockListing_count names, dataListing_count program tables]
  exact List.nodup_iff_count_le_one.mp apart number

end Assembly

namespace Run

def Ends {α : Type} (step : Run α) (before : Progress) (result : α) (after : Progress) : Prop :=
  step before = (.ok result, after)

namespace Ends

variable {α β : Type} {step : Run α} {before after : Progress}

theorem bind {next : α → Run β} {result : β} (ends : Ends (step >>= next) before result after) :
    ∃ value between, Ends step before value between ∧ Ends (next value) between result after := by
  change ExceptT.bindCont next (step before).1 (step before).2 = _ at ends
  cases run : step before with
  | mk outcome between =>
    rw [run] at ends
    cases outcome with
    | ok value => exact ⟨value, between, run, ends⟩
    | error problem => cases ends

theorem pure {value result : α} (ends : Ends (Pure.pure value) before result after) : result = value := by
  cases ends
  rfl

end Ends

theorem Ends.report {sources : SourceMap} {found : List Diagnostic} {before after : Progress}
    (ends : Ends (report sources found) before () after) : found.any Diagnostic.isError = false := by
  obtain ⟨_, added, adds, ends⟩ := ends.bind
  obtain ⟨progress, _, gets, ends⟩ := ends.bind
  cases adds
  cases gets
  dsimp only at ends
  split at ends
  · cases ends
  · rename_i quiet
    rw [List.any_append, Bool.or_eq_true, not_or] at quiet
    exact Bool.eq_false_of_not_eq_true quiet.2

end Run

namespace Session

variable {before after : Progress} {session : Session} {program : Ir.Program} {parsed : Syntax.Program}
  {output : CompileOutput} {text : String}

/-- The sessions of a compiler: sources are added, and stages are run. -/
inductive Made : Session → Prop
  | start (verbosity : Verbosity) (dumps : List DumpKind) : Made { verbosity := verbosity, dumps := dumps }
  | add {session : Session} (path text : String) : Made session → Made (session.add path text).2
  | run {session : Session} (stopAt : Stage) : Made session → Made (session.run stopAt).2.2

theorem Made.files_nodup (made : session.Made) : session.files.Nodup := by
  induction made with
  | start => exact List.nodup_nil
  | @add session path text _ ih =>
    show (if session.files.contains (session.sources.add path text).2 then session.files
      else session.files ++ [(session.sources.add path text).2]).Nodup
    split
    · exact ih
    · rename_i fresh
      refine List.nodup_append.mpr ⟨ih, List.nodup_singleton _, ?_⟩
      rintro file member other here rfl
      rw [List.mem_singleton.mp here] at member
      exact fresh (List.contains_iff_mem.mpr member)
  | run => assumption

theorem parse_ends (ends : Run.Ends session.parse before parsed after) :
    parsed = Syntax.Program.ofSources session.sources session.files := by
  obtain ⟨_, _, _, ends⟩ := ends.bind
  obtain ⟨_, _, _, ends⟩ := ends.bind
  obtain ⟨_, _, _, ends⟩ := ends.bind
  obtain ⟨_, _, _, ends⟩ := ends.bind
  exact ends.pure

theorem analyze_ends {analyzed : Analyzed} (ends : Run.Ends (session.analyze parsed) before analyzed after) :
    analyzed = Analysis.analyze session.sources parsed.trees ∧ analyzed.hasErrors = false := by
  obtain ⟨_, _, _, ends⟩ := ends.bind
  obtain ⟨_, _, _, ends⟩ := ends.bind
  obtain ⟨_, _, _, ends⟩ := ends.bind
  obtain ⟨_, _, reports, ends⟩ := ends.bind
  rw [ends.pure]
  exact ⟨rfl, reports.report⟩

theorem generate_ends {analyzed : Analyzed}
    (ends : Run.Ends (generate analyzed) before program after) : program = (Codegen.generate analyzed).program := by
  exact ends.pure

theorem allocate_ends {finished : Ir.Program}
    (ends : Run.Ends (session.allocate program) before finished after) : program.finish = .ok finished := by
  unfold allocate at ends
  cases finishes : program.finish with
  | error failure =>
    simp only [finishes] at ends
    split at ends
    · cases ends
    · cases ends
  | ok result =>
    simp only [finishes] at ends
    split at ends
    · rw [ends.pure]
    · rw [ends.pure]

theorem assemble_ends (ends : Run.Ends (assemble program) before text after) : text = Assembly.text program := by
  exact ends.pure

theorem output_ends {stage : Stage} {symbols : List SymbolEntry}
    (ends : Run.Ends (session.output stage text symbols) before output after) :
    output.text = text := by
  rw [ends.pure]

def analyzed (session : Session) : Analyzed :=
  Analysis.analyze session.sources (Syntax.Program.ofSources session.sources session.files).trees

theorem compile_assembly (ends : Run.Ends (session.compile .assembly) before output after) :
    session.analyzed.hasErrors = false ∧ ∃ finished, (Codegen.generate session.analyzed).program.finish = .ok finished ∧
      output.text = Assembly.text finished := by
  obtain ⟨parsed, _, parses, ends⟩ := ends.bind
  simp only [reduceCtorEq] at ends
  obtain ⟨_, _, _, ends⟩ := ends.bind
  obtain ⟨analyzed, _, analyzes, ends⟩ := ends.bind
  obtain ⟨_, _, _, ends⟩ := ends.bind
  obtain ⟨_, _, _, ends⟩ := ends.bind
  obtain ⟨program, _, generates, ends⟩ := ends.bind
  obtain ⟨_, _, _, ends⟩ := ends.bind
  obtain ⟨finished, _, allocates, ends⟩ := ends.bind
  obtain ⟨_, _, _, ends⟩ := ends.bind
  obtain ⟨text, _, assembles, ends⟩ := ends.bind
  obtain ⟨isAnalyzed, accepted⟩ := analyze_ends analyzes
  rw [parse_ends parses] at isAnalyzed
  change analyzed = session.analyzed at isAnalyzed
  have finishes := allocate_ends allocates
  rw [generate_ends generates] at finishes
  rw [← isAnalyzed]
  exact ⟨accepted, finished, finishes, (output_ends ends).trans (assemble_ends assembles)⟩

end Session

namespace Assembly

theorem label_not_local {table : Declarations}
    (labelled : ∀ function ∈ table.functions, '/' ∈ function.label.toList ∨ function.label = Analysis.topName)
    (id : FunctionId)
    (number : Nat) : (table.function id).label ≠ localLabel number := by
  have other : ∀ name : String, name.toList.head? ≠ some 'L' → name ≠ localLabel number := by
    rintro name first rfl
    rw [localLabel_toList] at first
    exact first rfl
  rw [Declarations.function, Array.getD_eq_getD_getElem?]
  cases found : table.functions[id]? with
  | none => exact other _ (by decide)
  | some function =>
    rcases labelled function (Array.mem_of_getElem? found) with slash | top
    · exact localLabel_ne_of_slash slash number
    · rw [Option.getD_some, top]
      exact other _ (by decide)

theorem finished_linked {analyzed : Analyzed} {program : Ir.Program}
    (isLowered : ∀ stmt ∈ analyzed.program.statements, Codegen.IsLowered analyzed.table stmt)
    (lowered : ∀ id < analyzed.table.functions.size, id ∈ analyzed.lowered)
    (labelled : ∀ function ∈ analyzed.table.functions, '/' ∈ function.label.toList ∨ function.label = Analysis.topName)
    (finishes : (Codegen.generate analyzed).program.finish = .ok program) :
    (∀ line ∈ listing program, ∀ name, line.refers = some name →
      (∃ routine : Codegen.Routine, name = routine.name) ∨ ∃ other ∈ listing program, other.defines = some name) ∧
      ∀ number, ((listing program).filterMap Line.defines).count (localLabel number) ≤ 1 := by
  obtain ⟨generated, names⟩ := Codegen.generate_supplied analyzed isLowered
  obtain ⟨supplied, same⟩ := generated.finish finishes
  rw [names] at same
  refine ⟨fun line member name named => ?_, listing_count supplied fun function member number => ?_⟩
  · have functions : ∀ label, Codegen.IsFunctionLabel analyzed.table label →
        label ∈ program.functions.map Ir.Function.name := by
      rintro label ⟨id, known, rfl⟩
      rw [same]
      exact List.mem_map_of_mem (lowered id known)
    exact (listing_refers supplied functions member named).imp_right List.mem_filterMap.mp
  · have inside : function.name ∈ Codegen.labels analyzed.table analyzed.lowered := same ▸ List.mem_map_of_mem member
    obtain ⟨id, _, label⟩ := List.mem_map.mp inside
    rw [← label]
    exact label_not_local labelled id number

/-- In the output of a compilation what lines refer to is defined by a line or is a routine of the runtime, and each local
label is defined once at most, although labels are counted in each function anew. -/
theorem output_linked {session : Session} (made : session.Made) {output : CompileOutput}
    (done : (session.run .assembly).1 = .ok output) :
    ∃ program, (Codegen.generate session.analyzed).program.finish = .ok program ∧
      output.text = String.join ((listing program).map fun line => line.text ++ "\n") ∧
      (∀ line ∈ listing program, ∀ name, line.refers = some name →
        (∃ routine : Codegen.Routine, name = routine.name) ∨ ∃ other ∈ listing program, other.defines = some name) ∧
      ∀ number, ((listing program).filterMap Line.defines).count (localLabel number) ≤ 1 := by
  obtain ⟨accepted, program, finishes, text⟩ := Session.compile_assembly
    (show Run.Ends (session.compile .assembly) {} output (session.compile .assembly {}).2 from Prod.ext done rfl)
  have places := Syntax.ofSources_places_nodup session.sources made.files_nodup
  have closed := Syntax.ofSources_elseLast session.sources session.files
  obtain ⟨isLowered, lowered, labelled⟩ := Analysis.analyze_lowered session.sources _ places closed accepted
  refine ⟨program, finishes, ?_, finished_linked isLowered lowered labelled finishes⟩
  rw [text, Assembly.text, ← listing_text, List.map_map]
  rfl

def loopsTwice : Session :=
  (({} : Session).add "loops.fpl" "fun f()\n\twhile true\n\t\tprint(\"b\")\nwhile true\n\tf()\n").2

/-- The labels of the second function are counted on from those of the first. -/
theorem loopsTwice_linked : loopsTwice.Made ∧ ∃ output program, (loopsTwice.run .assembly).1 = .ok output ∧
    output.text = String.join ((listing program).map fun line => line.text ++ "\n") ∧
    (listing program).filterMap Line.refers = ["L3", "/f()", "L1", "L7", "OBJ0", "printString", "L5"] ∧
    (∀ line ∈ listing program, ∀ name, line.refers = some name →
      (∃ routine : Codegen.Routine, name = routine.name) ∨ ∃ other ∈ listing program, other.defines = some name) ∧
    ∀ number, ((listing program).filterMap Line.defines).count (localLabel number) ≤ 1 := by
  have made : loopsTwice.Made := .add _ _ (.start .silent [])
  have ends : (loopsTwice.run .assembly).1.toOption.isSome = true := by decide +kernel
  have references : (Codegen.generate loopsTwice.analyzed).program.finish.toOption.map
      (fun program => (listing program).filterMap Line.refers) =
        some ["L3", "/f()", "L1", "L7", "OBJ0", "printString", "L5"] := by decide +kernel
  generalize run : (loopsTwice.run .assembly).1 = result at ends
  cases result with
  | error problem => cases ends
  | ok output =>
    obtain ⟨program, finishes, text, refers, once⟩ := output_linked made run
    rw [finishes] at references
    exact ⟨made, output, program, rfl, text, Option.some.inj references, refers, once⟩

end Assembly

end FplCompiler
