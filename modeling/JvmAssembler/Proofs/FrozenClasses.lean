import JvmAssembler.Proofs.BuilderConsistency
import JvmAssembler.Proofs.ClassFileRoundTrip
import JvmAssembler.Proofs.LateEmissions

/-!
# Calls on a class that was ended

Once its end has succeeded, nothing that is called on a class or on its methods changes the class.
The symbols that emissions name are counted all the same, before the method is asked whether it was
ended. What is written therefore changes with them, and only with them.
-/

set_option autoImplicit false
set_option relaxedAutoImplicit false

namespace JvmAssembler

/-- The symbol that an emission names: its string, its number if 16 bits are too few for it, or its
field or method, unless the argument is turned down. -/
def Emission.symbol? : Emission → Option Symbol
  | .loadString text => if Utf8.isValid text then some (.string text) else none
  | .loadInteger value =>
    if -2147483648 ≤ value ∧ value < -32768 ∨ 32767 < value ∧ value ≤ 2147483647 then
      some (.integer (Int32.ofInt value))
    else none
  | .field _ owner name descriptor =>
    if ∀ text ∈ [owner, name, descriptor], Utf8.isValid text then
      some (.fieldRef owner name descriptor)
    else none
  | .method _ owner name descriptor =>
    if ∀ text ∈ [owner, name, descriptor], Utf8.isValid text then
      some (.methodRef owner name descriptor)
    else none
  | _ => none

namespace Call

def symbol? : Call → Option Symbol
  | .emit _ e => e.symbol?
  | _ => none

/-- A call on a class builder or on a method builder that was obtained from it. -/
def On (c : ClassId) (earlier : List Call) : Call → Prop
  | .beginMethod c' _ _ _ => c' = c
  | .endClass c' => c' = c
  | .emit m _ => m ∈ (begunOn c earlier).map Prod.snd
  | .endMethod m => m ∈ (begunOn c earlier).map Prod.snd
  | _ => False

instance (c : ClassId) (earlier : List Call) : (call : Call) → Decidable (call.On c earlier)
  | .beginMethod c' _ _ _ | .endClass c' => inferInstanceAs (Decidable (c' = c))
  | .emit m _ | .endMethod m =>
    inferInstanceAs (Decidable (m ∈ (begunOn c earlier).map Prod.snd))
  | .beginClass _ _ _ | .refer _ => isFalse id

end Call

namespace MethodBuilder

private theorem symbol_withTexts (b : MethodBuilder) (what : Text) (texts : List Text)
    (go : Emitted) : (b.withTexts what texts go).symbol =
      if ∀ text ∈ texts, Utf8.isValid text then go.symbol else none := by
  rw [withTexts]
  split
  · rename_i c found
    obtain ⟨text, member, invalid⟩ := List.exists_of_findSome?_eq_some found
    have broken : ¬ ∀ text ∈ texts, Utf8.isValid text = true := by
      intro valid
      rw [invalidText?, if_pos (valid text member)] at invalid
      cases invalid
    rw [if_neg broken, rejectText]
    split_ifs
    · rfl
    · rfl
  · rename_i clean
    rw [if_pos]
    intro text member
    exact valid_of_invalidText?_eq_none (List.findSome?_eq_none_iff.mp clean text member)

private theorem symbol_emit (b : MethodBuilder) (e : Emission) : (b.emit e).symbol = e.symbol? := by
  cases e with
  | instruction i =>
    cases i with
    | none => rfl
    | some i => exact symbol_add b i
  | parameter name =>
    rw [emit]
    split_ifs
    · rfl
    · rfl
  | localVariable op name => exact symbol_add _ _
  | loadString text =>
    rw [emit, symbol_withTexts, Emission.symbol?]
    simp only [List.forall_mem_singleton]
    rfl
  | loadInteger value =>
    rw [emit, Emission.symbol?]
    by_cases large : value < -2147483648 ∨ 2147483647 < value
    · rw [if_pos large, if_neg (by omega)]
    · have same : (Int32.ofInt value).toInt = value := by
        apply Int32.toInt_ofInt_of_le
        · change -2147483648 ≤ value
          omega
        · change value < 2147483648
          omega
      rw [if_neg large]
      dsimp only
      rw [Code.symbols_integerInstruction, same]
      by_cases short : -32768 ≤ value ∧ value ≤ 32767
      · rw [if_pos short, if_neg (by omega)]
        rfl
      · rw [if_neg short, if_pos (by omega)]
        rfl
  | field op owner name descriptor => exact symbol_withTexts b _ _ _
  | method op owner name descriptor => exact symbol_withTexts b _ _ _
  | bare op => exact symbol_add b _

end MethodBuilder

namespace ClassFile

private theorem exists_records_of_write {v : Version} {t : Table} {c : ClassDecl} {bytes : Bytes}
    (written : write v t (some c) = .ok bytes) :
    ∃ x f, t.resolve = .ok x ∧ Reader.Takes read bytes f ∧ f.Records v x c := by
  obtain ⟨x, resolved, written⟩ := exists_of_bind_eq_ok written
  obtain ⟨header, headed, written⟩ := exists_of_bind_eq_ok written
  obtain ⟨pool, pooled, written⟩ := exists_of_bind_eq_ok written
  obtain ⟨body, classed, written⟩ := exists_of_bind_eq_ok written
  cases written
  obtain ⟨f, taken, recorded⟩ := takes_written resolved headed pooled classed
  exact ⟨x, f, resolved, taken, recorded⟩

private theorem contains_of_write_eq_write {v : Version} {t t' : Table} {c : ClassDecl}
    {bytes : Bytes}
    (first : write v t (some c) = .ok bytes) (second : write v t' (some c) = .ok bytes)
    {s : Symbol} (held : t'.contains s = true) : t.contains s = true := by
  obtain ⟨x, f, resolved, taken, recorded⟩ := exists_records_of_write first
  obtain ⟨x', f', resolved', taken', recorded'⟩ := exists_records_of_write second
  have same : f = f' := by
    have both := (taken []).symm.trans (taken' [])
    injection both with pair
    exact congrArg Prod.fst pair
  have entries : x.entries = x'.entries := by
    rw [← recorded.pool, ← recorded'.pool, same]
  rw [← Table.mem_ranked] at held ⊢
  rw [← Table.entries_of_resolve resolved'] at held
  rw [← Table.entries_of_resolve resolved, entries]
  exact held

end ClassFile

namespace Assembler

/-- A class that was ended, and none of whose methods takes instructions any more. -/
structure Frozen (a : Assembler) (c : ClassId) : Prop where
  ended : ∃ B, a.classes[c]? = some B ∧ B.ended = true
  settled : ∀ (m : MethodId) (b : MethodBuilder), a.methods[m]? = some b → b.owner = c →
    b.stage ≠ .live

/-- The state has the same class to write, with further uses of symbols. -/
structure Adds (a : Assembler) (symbols : List Symbol) (a' : Assembler) : Prop where
  options : a'.options = a.options
  finished : a'.finished = a.finished
  table : a'.table = symbols.foldl Table.refer a.table

section

variable {o : Options} {a : Assembler} {c : ClassId} {call : Call}

private theorem frozen_endClass {calls : List Call} (legal : Along Call.Legal calls)
    {decl : ClassDecl} (ended : ((run { options := o } calls).endClass c).1 = .ok decl) :
    ((run { options := o } calls).step (.endClass c)).Frozen c := by
  have recorded := recorded_run o legal
  generalize run { options := o } calls = a at ended recorded
  obtain ⟨B, found, running, clean, idle, -⟩ := endClass_eq_ok ended
  have tracked := recorded.clean c B found running clean
  have closed := (tracked.all_done idle).2
  rcases endClass_cases a c with ⟨past, -⟩ | ⟨B', found', classes, methods⟩
  · rw [past B found] at running
    cases running
  · rw [found] at found'
    cases found'
    rw [idle] at methods
    constructor
    · refine ⟨{ B with ended := true, openMethod := none }, ?_, rfl⟩
      rw [step, classes, Array.getElem?_modify, if_pos rfl, found]
      rfl
    · intro m b here owner live
      rw [step, methods] at here
      have begun := mem_begunOn.mpr ⟨recorded.getElem?_methodsBegun here, owner⟩
      obtain ⟨b', here', stage⟩ := closed _ begun
      rw [here] at here'
      cases here'
      rw [live] at stage
      cases stage

private theorem Frozen.step (frozen : a.Frozen c) (call : Call) : (a.step call).Frozen c := by
  obtain ⟨⟨B, found, past⟩, settled⟩ := frozen
  constructor
  · obtain ⟨B', after, kept⟩ := exists_class_step found call
    exact ⟨B', after, kept past⟩
  · intro m b here owner live
    cases begun : call.begunMethod? with
    | none =>
      obtain ⟨k, f, change⟩ := exists_methodStep a begun
      rw [change.methods, Array.getElem?_modify] at here
      split_ifs at here
      · obtain ⟨b₀, before, rfl⟩ := Option.map_eq_some_iff.mp here
        have same : b₀.owner = c := (congrArg BegunMethod.owner (change.begun b₀)).symm.trans owner
        exact settled m b₀ before same (change.live b₀ live)
      · exact settled m b here owner live
    | some g =>
      cases call with
      | beginMethod c' access name descriptor =>
        rcases beginMethod_cases a c' access name descriptor with
          ⟨f, methods, -⟩ | ⟨open_, methods, -⟩
        · rw [Assembler.step, methods, Array.getElem?_push] at here
          split_ifs at here
          · cases here
            cases live
          · exact settled m b here owner live
        · rw [Assembler.step, methods, Array.getElem?_push] at here
          split_ifs at here
          · cases here
            cases owner
            rw [(open_ B found).1] at past
            cases past
          · exact settled m b here owner live
      | _ => cases begun

theorem Frozen.run (frozen : a.Frozen c) (calls : List Call) : (a.run calls).Frozen c := by
  induction calls generalizing a with
  | nil => exact frozen
  | cons call calls ih => exact ih (frozen.step call)

theorem exists_method_of_on {history : List Call} {m : MethodId}
    (member : m ∈ (begunOn c history).map Prod.snd) :
    ∃ b, (Assembler.run { options := o } history).methods[m]? = some b ∧ b.owner = c := by
  obtain ⟨⟨g, k⟩, listed, rfl⟩ := List.mem_map.mp member
  obtain ⟨begun, owner⟩ := mem_begunOn.mp listed
  rw [← map_begun_run o, List.getElem?_map, Array.getElem?_toList] at begun
  obtain ⟨b, found, rfl⟩ := Option.map_eq_some_iff.mp begun
  exact ⟨b, found, owner⟩

private theorem Frozen.adds {history : List Call}
    (frozen : (Assembler.run { options := o } history).Frozen c) (on : call.On c history) :
    (Assembler.run { options := o } history).Adds call.symbol?.toList
      ((Assembler.run { options := o } history).step call) := by
  obtain ⟨B, found, past⟩ := frozen.ended
  cases call with
  | beginClass name access supers => cases on
  | beginMethod c' access name descriptor =>
    cases on
    simp only [Assembler.step, beginMethod, found, Option.bind_some, beginMethodProblem?,
      if_pos past]
    exact ⟨rfl, rfl, rfl⟩
  | emit m e =>
    obtain ⟨b, here, -⟩ := exists_method_of_on on
    rw [Assembler.step, emit_of_getElem?_eq_some here, b.symbol_emit, Call.symbol?]
    refine ⟨rfl, rfl, ?_⟩
    cases e.symbol? with
    | none => rfl
    | some s => rfl
  | endMethod m =>
    obtain ⟨b, here, owner⟩ := exists_method_of_on on
    have settled : (Assembler.run { options := o } history).Settled m :=
      ⟨b, here, frozen.settled m b here owner⟩
    rw [Assembler.step, settled.endMethod]
    exact ⟨rfl, rfl, rfl⟩
  | endClass c' =>
    cases on
    simp only [Assembler.step, endClass, found, if_pos past]
    exact ⟨rfl, rfl, rfl⟩
  | refer s => cases on

private theorem Adds.trans {a' a'' : Assembler} {symbols symbols' : List Symbol}
    (first : a.Adds symbols a') (second : a'.Adds symbols' a'') :
    a.Adds (symbols ++ symbols') a'' where
  options := second.options.trans first.options
  finished := second.finished.trans first.finished
  table := by rw [second.table, first.table, List.foldl_append]

private theorem Frozen.adds_run {history later : List Call}
    (frozen : (Assembler.run { options := o } history).Frozen c)
    (on : Along (fun part => Call.On c (history ++ part)) later) :
    (Assembler.run { options := o } history).Adds (later.filterMap Call.symbol?)
      ((Assembler.run { options := o } history).run later) := by
  induction later using List.reverseRecOn with
  | nil => exact ⟨rfl, rfl, rfl⟩
  | append_singleton later call ih =>
    obtain ⟨before, last⟩ := along_append_singleton.mp on
    have there : (Assembler.run { options := o } (history ++ later)).Frozen c := by
      rw [run_append]
      exact frozen.run later
    have step := there.adds last
    rw [run_append] at step
    have symbols : (later ++ [call]).filterMap Call.symbol? =
        later.filterMap Call.symbol? ++ call.symbol?.toList := by
      rw [List.filterMap_append]
      cases named : call.symbol? with
      | none => simp [named]
      | some s => simp [named]
    rw [run_append_singleton, symbols]
    exact (ih before).trans step

private theorem Adds.write {a' : Assembler} {symbols : List Symbol} (adds : a.Adds symbols a') :
    a'.write.1 = Prod.fst
      (Assembler.write { a with table := symbols.foldl Table.refer a.table }) := by
  have current : a'.current = a.current := by
    rw [Assembler.current, adds.finished, Assembler.current]
  generalize grown : ({ a with table := symbols.foldl Table.refer a.table } : Assembler) = a₁
  have current₁ : a₁.current = a.current := by rw [← grown, Assembler.current, Assembler.current]
  cases class_ : a.current with
  | none =>
    rw [class_] at current current₁
    simp only [Assembler.write, current, current₁]
  | some d =>
    rw [class_] at current current₁
    rw [write_of_current current, write_of_current current₁, adds.options, adds.table, ← grown]

private theorem Adds.write_ne {a' : Assembler} {symbols : List Symbol} (adds : a.Adds symbols a')
    {bytes : Bytes} (written : a.write.1 = .ok bytes) {s : Symbol} (member : s ∈ symbols)
    (fresh : a.table.contains s = false) : a'.write.1 ≠ .ok bytes := by
  intro same
  cases current : a.current with
  | none =>
    simp only [Assembler.write, current] at written
    cases written
  | some d =>
    have current' : a'.current = some d := by
      rw [Assembler.current, adds.finished]
      exact current
    rw [write_of_current current] at written
    rw [write_of_current current', adds.options] at same
    have held : a'.table.contains s = true := by
      rw [adds.table]
      exact Table.contains_foldl_refer a.table member
    rw [ClassFile.contains_of_write_eq_write written same held] at fresh
    cases fresh

end

def EndedIn (o : Options) (c : ClassId) (history : List Call) : Prop :=
  ∃ calls after decl, history = calls ++ .endClass c :: after ∧
    ((run { options := o } calls).endClass c).1 = .ok decl

private theorem frozen_of_endedIn {o : Options} {c : ClassId} {history : List Call}
    (legal : Along Call.Legal history) (ended : EndedIn o c history) :
    (run { options := o } history).Frozen c := by
  obtain ⟨calls, after, decl, rfl, ok⟩ := ended
  rw [run_append]
  exact (frozen_endClass legal.of_append ok).run after

/-- After a history in which the end of a class succeeded, calls on this class and its methods
change what is written by the symbols that they name and by nothing else. Calls that name none leave
it unchanged. A symbol that is new to the pool changes it. -/
theorem write_of_calls_on_ended_class (o : Options) {history : List Call}
    (legal : Along Call.Legal history) {c : ClassId} (ended : EndedIn o c history)
    {later : List Call} (on : Along (fun part => Call.On c (history ++ part)) later) :
    let a := run { options := o } history
    (a.run later).write.1 = Prod.fst (write { a with
        table := (later.filterMap Call.symbol?).foldl Table.refer a.table }) ∧
      ((∀ call ∈ later, call.symbol? = none) → (a.run later).write.1 = a.write.1) ∧
      ∀ bytes, a.write.1 = .ok bytes →
        (∃ s ∈ later.filterMap Call.symbol?, a.table.contains s = false) →
          (a.run later).write.1 ≠ .ok bytes := by
  intro a
  have adds := (frozen_of_endedIn legal ended).adds_run on
  refine ⟨adds.write, ?_, ?_⟩
  · intro nameless
    rw [List.filterMap_eq_nil_iff.mpr nameless] at adds
    exact adds.write
  · rintro bytes written ⟨s, member, fresh⟩
    exact adds.write_ne written member fresh

def endedClassHistory : List Call := endedMethodHistory ++ [.endClass 0]

def endedClassSymbols : List Symbol :=
  [.utf8 "Code", .utf8 "f", .utf8 "()V", .utf8 "A", .classRef "A", .utf8 "java/lang/Object",
    .classRef "java/lang/Object"]

private theorem endedIn_endedClassHistory : EndedIn {} 0 endedClassHistory :=
  ⟨endedMethodHistory, [], _, rfl, rfl⟩

private theorem table_endedClassHistory :
    (run {} endedClassHistory).table = Table.empty.internAll endedClassSymbols := rfl

private theorem contains_endedClassHistory (s : Symbol) :
    (run {} endedClassHistory).table.contains s = true ↔ s ∈ endedClassSymbols := by
  rw [table_endedClassHistory, Table.contains_internAll, Table.contains_empty]
  simp

private theorem exists_write_endedClassHistory :
    ∃ bytes, (run {} endedClassHistory).write.1 = .ok bytes := by
  have admissible : Admissible endedClassHistory := by decide
  have ended : ∃ d, (run {} endedClassHistory).current = some d ∧
      ∀ m ∈ d.methods, m.instructions.length = 1 := ⟨_, rfl, by decide⟩
  obtain ⟨d, ended, short⟩ := ended
  have consistent := (sound_run {} admissible).consistent ended
  have fits : ClassFile.Fits (run {} endedClassHistory).table d := by
    refine ⟨?_, ?_, ?_⟩
    · have bound := Table.size_internAll_le Table.empty endedClassSymbols
      rw [table_endedClassHistory]
      exact Nat.le_trans bound (by decide)
    · intro text held
      have all : ∀ s ∈ endedClassSymbols, ∀ text ∈ s.texts,
          (ModifiedUtf8.encode text).length ≤ 65535 := by decide
      exact all _ ((contains_endedClassHistory _).mp held) text List.mem_cons_self
    · rintro m member n ⟨x, -, measured⟩
      have bound := Code.encodedLength_le measured
      rw [short m member] at bound
      omega
  rw [write_of_current ended]
  exact (ClassFile.write_verdict _ _ d).exists_ok_iff.mpr ⟨consistent, fits⟩

/-- Misuse that names no symbol: a late instruction, a late method, and what was ended is ended
again. -/
def namelessCalls : List Call :=
  [.emit 0 (.bare .pop), .beginMethod 0 defaultMethodAccess "g" "()V", .emit 1 (.loadInteger 7),
    .endMethod 1, .endMethod 0, .endClass 0]

theorem write_of_namelessCalls :
    Along (fun part => Call.On 0 (endedClassHistory ++ part)) namelessCalls ∧
      ∃ bytes, (run {} endedClassHistory).write.1 = .ok bytes ∧
        ((run {} endedClassHistory).run namelessCalls).write.1 = .ok bytes := by
  have legal : Along Call.Legal endedClassHistory := by decide
  have on : Along (fun part => Call.On 0 (endedClassHistory ++ part)) namelessCalls := by decide
  obtain ⟨bytes, written⟩ := exists_write_endedClassHistory
  have same := (write_of_calls_on_ended_class {} legal endedIn_endedClassHistory on).2.1 (by decide)
  exact ⟨on, bytes, written, same.trans written⟩

/-- A string that is loaded in a method of an ended class changes what is written. -/
theorem write_ne_after_late_string :
    EndedIn {} 0 endedClassHistory ∧
      Along (fun part => Call.On 0 (endedClassHistory ++ part)) [.emit 0 (.loadString "x")] ∧
      ((run {} endedClassHistory).run [.emit 0 (.loadString "x")]).write.1 ≠
        (run {} endedClassHistory).write.1 := by
  have legal : Along Call.Legal endedClassHistory := by decide
  have on : Along (fun part => Call.On 0 (endedClassHistory ++ part))
      [.emit 0 (.loadString "x")] := by decide
  have adds := (frozen_of_endedIn legal endedIn_endedClassHistory).adds_run on
  have fresh : (run {} endedClassHistory).table.contains (.string "x") = false := by
    rw [Bool.eq_false_iff, Ne, contains_endedClassHistory]
    decide
  obtain ⟨bytes, written⟩ := exists_write_endedClassHistory
  refine ⟨endedIn_endedClassHistory, on, ?_⟩
  rw [written]
  exact adds.write_ne written (by decide) fresh

end Assembler

end JvmAssembler
