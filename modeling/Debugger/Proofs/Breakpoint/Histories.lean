import Debugger.Proofs.Breakpoint.Identifiers
import Debugger.Proofs.Breakpoint.Registry

/-! Histories of store operations. Main statement: whatever has been done to a store, it
holds what was added and not taken away since, an identifier that was taken away never comes
back, and each operation does to the map of breakpoints what it is for and no more. -/
namespace Debugger

namespace Store

/-- An operation with its answer. -/
abbrev Deed := StoreOperation × StoreAnswer

/-- The stores that histories of operations lead to. In between the visiting order may
change in any way. -/
inductive History : List Deed → Store → Prop where
  | fresh : History [] {}
  | perform (operation : StoreOperation) {past : List Deed} {s : Store} : History past s →
      History (past ++ [(operation, (operation.perform s).1)]) (operation.perform s).2.2
  | reorder {past : List Deed} {s : Store} {entries : List Breakpoint} : History past s →
      entries.Perm s.entries → History past { s with entries }

def Deed.handsOut : Deed → Option BreakpointId
  | (.add _, .id id) => some id
  | _ => none

/-- The identifiers handed out by additions, in order. -/
def handedOut (past : List Deed) : List BreakpointId :=
  past.filterMap Deed.handsOut

/-- The identifier was handed out by an addition of that kind, and neither removed nor
cleared away since. -/
def Live (past : List Deed) (id : BreakpointId) (kind : Breakpoint.Kind) : Prop :=
  ∃ before after, past = before ++ (.add kind, .id id) :: after ∧
    ∀ deed ∈ after, deed.1 ≠ .remove id ∧ deed.1 ≠ .clear

namespace Live
variable {past : List Deed} {id : BreakpointId} {kind : Breakpoint.Kind}

theorem concat_iff (deed : Deed) : Live (past ++ [deed]) id kind ↔
    deed = (.add kind, .id id) ∨
      Live past id kind ∧ deed.1 ≠ .remove id ∧ deed.1 ≠ .clear := by
  constructor
  · rintro ⟨before, after, split, since⟩
    rcases List.eq_nil_or_concat after with rfl | ⟨after, last, rfl⟩
    · exact .inl (List.append_inj_right' split rfl |> List.singleton_inj.mp)
    · rw [List.concat_eq_append] at split since
      rw [← List.cons_append, ← List.append_assoc] at split
      obtain ⟨rfl, same⟩ := List.append_inj' split rfl
      obtain rfl := List.singleton_inj.mp same
      rw [List.forall_mem_append] at since
      exact .inr ⟨⟨before, after, rfl, since.1⟩, since.2 deed (List.mem_singleton.mpr rfl)⟩
  · rintro (rfl | ⟨⟨before, after, rfl, since⟩, spared⟩)
    · exact ⟨past, [], rfl, by simp⟩
    · refine ⟨before, after ++ [deed], by simp, fun other member => ?_⟩
      rcases List.mem_append.mp member with earlier | last
      · exact since other earlier
      · rwa [List.mem_singleton.mp last]

theorem mem_handedOut (live : Live past id kind) : id ∈ handedOut past := by
  obtain ⟨before, after, rfl, -⟩ := live
  exact List.mem_filterMap.mpr ⟨_, List.mem_append_right _ List.mem_cons_self, rfl⟩

/-- What later deeds do not hand out they did not take away either. -/
theorem spared {more : List Deed} (live : Live (past ++ more) id kind)
    (never : id ∉ handedOut more) : ∀ deed ∈ more, deed.1 ≠ .remove id ∧ deed.1 ≠ .clear := by
  have late (first rest : List Deed) : more ≠ first ++ (.add kind, .id id) :: rest := by
    rintro rfl
    exact never (List.mem_filterMap.mpr ⟨_, List.mem_append_right _ List.mem_cons_self, rfl⟩)
  obtain ⟨before, after, split, since⟩ := live
  obtain ⟨first, rfl, later⟩ | ⟨first, rfl, later⟩ := List.append_eq_append_iff.mp split
  · exact absurd later (late _ _)
  · cases first with
    | nil => exact absurd later.symm (late [] _)
    | cons added first =>
        obtain ⟨rfl, rfl⟩ := List.cons.inj later
        exact fun deed member => since deed (List.mem_append_right _ member)

end Live

theorem handedOut_concat (past : List Deed) (deed : Deed) :
    handedOut (past ++ [deed]) = handedOut past ++ deed.handsOut.toList := by
  rw [handedOut, List.filterMap_append, ← handedOut]
  cases out : deed.handsOut <;> simp [out]

/-- What a history says about identifiers, also once sequence numbers have wrapped around. -/
structure Numbered (past : List Deed) (s : Store) : Prop where
  next : s.next = UInt32.ofNat (handedOut past).length
  issued : handedOut past =
    (List.range (handedOut past).length).map fun n => BreakpointId.ofSequence (UInt32.ofNat n)
  distinct : (s.entries.map (·.id)).Nodup

namespace Numbered
variable {past : List Deed} {s : Store}

theorem empty : Numbered [] {} :=
  ⟨rfl, rfl, List.nodup_nil⟩

/-- Only an addition hands out an identifier, and it uses up a sequence number. -/
theorem next_perform (operation : StoreOperation) (s : Store) :
    Deed.handsOut (operation, (operation.perform s).1) = some (BreakpointId.ofSequence s.next) ∧
        (operation.perform s).2.2.next = s.next + 1 ∨
      Deed.handsOut (operation, (operation.perform s).1) = none ∧
        (operation.perform s).2.2.next = s.next := by
  cases operation with
  | add kind => exact .inl ⟨rfl, rfl⟩
  | _ => exact .inr ⟨rfl, rfl⟩

theorem perform (numbered : Numbered past s) (operation : StoreOperation) :
    Numbered (past ++ [(operation, (operation.perform s).1)]) (operation.perform s).2.2 := by
  have distinct := distinct_perform operation numbered.distinct
  obtain ⟨new, next⟩ | ⟨silent, next⟩ := next_perform operation s
  · have issued : handedOut (past ++ [(operation, (operation.perform s).1)]) =
        handedOut past ++ [BreakpointId.ofSequence s.next] := by
      rw [handedOut_concat, new]
      rfl
    refine ⟨?_, ?_, distinct⟩
    · rw [next, issued, List.length_append, List.length_singleton, UInt32.ofNat_add,
        ← numbered.next]
      rfl
    · rw [issued, List.length_append, List.length_singleton, List.range_succ, List.map_append,
        ← numbered.issued, numbered.next]
      rfl
  · have same : handedOut (past ++ [(operation, (operation.perform s).1)]) = handedOut past := by
      rw [handedOut_concat, silent]
      exact List.append_nil _
    refine ⟨?_, ?_, distinct⟩
    · rw [next, same, numbered.next]
    · rw [same, ← numbered.issued]

theorem reorder (numbered : Numbered past s) {entries : List Breakpoint}
    (order : entries.Perm s.entries) : Numbered past { s with entries } :=
  ⟨numbered.next, numbered.issued, (order.map _).nodup_iff.mpr numbered.distinct⟩

theorem of_history (history : History past s) : Numbered past s := by
  induction history with
  | fresh => exact .empty
  | perform operation _ numbered => exact numbered.perform operation
  | reorder _ order numbered => exact numbered.reorder order

theorem getElem?_handedOut (numbered : Numbered past s) {i : Nat} {id : BreakpointId}
    (issued : (handedOut past)[i]? = some id) : id = BreakpointId.ofSequence (.ofNat i) := by
  obtain ⟨small, -⟩ := List.getElem?_eq_some_iff.mp issued
  rw [numbered.issued, List.getElem?_map, List.getElem?_range small] at issued
  exact (Option.some.inj issued).symm

theorem nodup_handedOut (numbered : Numbered past s)
    (few : (handedOut past).length ≤ UInt32.size) : (handedOut past).Nodup := by
  rw [numbered.issued, List.nodup_iff_pairwise_ne, List.pairwise_map]
  refine List.nodup_range.imp_of_mem fun small other different same => different ?_
  rw [List.mem_range] at small other
  exact BreakpointId.ofSequence_ofNat_inj (by omega) (by omega) same

/-- The identifier of the next addition has not been handed out. -/
theorem fresh (numbered : Numbered past s) (room : (handedOut past).length < UInt32.size) :
    BreakpointId.ofSequence s.next ∉ handedOut past := by
  rw [numbered.issued, numbered.next]
  intro member
  obtain ⟨n, small, same⟩ := List.mem_map.mp member
  rw [List.mem_range] at small
  exact absurd (BreakpointId.ofSequence_ofNat_inj (by omega) room same) (Nat.ne_of_lt small)

end Numbered

/-- What a history says about the store that it leads to. -/
structure Kept (past : List Deed) (s : Store) : Prop extends Numbered past s where
  live : ∀ id kind, (s.get? id).map (·.kind) = some kind ↔ Live past id kind

/-- The operation still finds a sequence number if it needs one. -/
def Room (past : List Deed) (operation : StoreOperation) : Prop :=
  ∀ kind, operation = .add kind → (handedOut past).length < UInt32.size

namespace Kept
variable {past : List Deed} {s : Store}

theorem get?_eq_none (kept : Kept past s) {id : BreakpointId} (unissued : id ∉ handedOut past) :
    s.get? id = none := by
  cases found : s.get? id with
  | none => rfl
  | some b => exact absurd ((kept.live id b.kind).mp (by rw [found]; rfl)).mem_handedOut unissued

theorem meets (kept : Kept past s) {operation : StoreOperation} (room : Room past operation) :
    Registry.Meets s.get? (operation.perform s).1 (operation.perform s).2.2.get? operation := by
  have lists := lists_list kept.distinct
  cases operation with
  | add kind =>
      have absent := kept.get?_eq_none (kept.fresh (room kind rfl))
      exact ⟨_, rfl, absent, get?_add s kind⟩
  | remove id => exact ⟨rfl, get?_remove s id⟩
  | get id => exact ⟨rfl, rfl⟩
  | list => exact ⟨s.list, lists, rfl, rfl⟩
  | ids => exact ⟨s.list, lists, rfl, rfl⟩
  | clear => exact ⟨rfl, rfl⟩
  | size => exact ⟨s.list, lists, congrArg _ (KeyOrder.sort_perm _ _).length_eq.symm, rfl⟩
  | isEmpty => exact ⟨s.list, lists, congrArg _ (KeyOrder.sort_perm _ _).isEmpty_eq.symm, rfl⟩
  | setEnabled id enabled => exact ⟨rfl, get?_modify s id fun _ same => same⟩
  | setCondition id condition => exact ⟨rfl, get?_modify s id fun _ same => same⟩
  | setTarget id target => exact ⟨rfl, get?_modify s id fun _ same => same⟩
  | shouldBreak site => exact ⟨⟨_, rfl⟩, fun id => find?_visit site id s.entries⟩

/-- Operations that neither add nor take away keep what is live. -/
theorem live_of_kinds (kept : Kept past s) {r : Registry} {deed : Deed}
    (kinds : ∀ id, (r id).map (·.kind) = (s.get? id).map (·.kind))
    (spares : deed.handsOut = none ∧ (∀ id, deed.1 ≠ .remove id) ∧ deed.1 ≠ .clear)
    (id : BreakpointId) (kind : Breakpoint.Kind) :
    (r id).map (·.kind) = some kind ↔ Live (past ++ [deed]) id kind := by
  obtain ⟨adds, removes, clears⟩ := spares
  have other : deed ≠ (.add kind, .id id) := by
    rintro rfl
    exact absurd adds (Option.some_ne_none id)
  rw [kinds, kept.live, Live.concat_iff, or_iff_right other]
  exact ⟨fun live => ⟨live, removes id, clears⟩, And.left⟩

theorem kinds_of_changes {r r' : Registry} {id : BreakpointId} {change : Breakpoint → Breakpoint}
    {answer : StoreAnswer} (changes : r.Changes id change answer r')
    (kind : ∀ b, (change b).kind = b.kind) (other : BreakpointId) :
    (r' other).map (·.kind) = (r other).map (·.kind) := by
  rw [changes.2, Registry.set]
  split
  case isTrue same =>
    subst same
    simp only [Option.map_map, Function.comp_def, kind]
  case isFalse => rfl

theorem kinds_of_visited {r r' : Registry} {site : Site} (visited : r.Visited site r')
    (id : BreakpointId) : (r' id).map (·.kind) = (r id).map (·.kind) := by
  obtain same | ⟨b, found, -, hit⟩ := visited id
  · rw [same]
  · rw [found, hit]
    rfl

theorem live_add (kept : Kept past s) (added : Breakpoint.Kind)
    (room : (handedOut past).length < UInt32.size) (id : BreakpointId) (kind : Breakpoint.Kind) :
    ((s.add added).2.get? id).map (·.kind) = some kind ↔
      Live (past ++ [(.add added, .id (s.add added).1)]) id kind := by
  have fresh := kept.fresh room
  rw [get?_add, Registry.set, Live.concat_iff]
  split
  case isTrue same =>
    subst same
    have unseen : ¬ Live past (BreakpointId.ofSequence s.next) kind := fun live =>
      fresh live.mem_handedOut
    simp [unseen, Store.add]
  case isFalse different =>
    have other : (BreakpointId.ofSequence s.next) ≠ id := Ne.symm different
    simp [kept.live, Store.add, other]

theorem live_remove (kept : Kept past s) (removed id : BreakpointId) (kind : Breakpoint.Kind) :
    ((s.remove removed).2.get? id).map (·.kind) = some kind ↔
      Live (past ++ [(.remove removed, .flag (s.remove removed).1)]) id kind := by
  rw [get?_remove, Registry.set, Live.concat_iff]
  split
  case isTrue same => simp [same]
  case isFalse different => simp [kept.live, Ne.symm different]

theorem perform (kept : Kept past s) {operation : StoreOperation} (room : Room past operation) :
    Kept (past ++ [(operation, (operation.perform s).1)]) (operation.perform s).2.2 := by
  have meets := kept.meets room
  refine ⟨kept.toNumbered.perform operation, ?_⟩
  cases operation with
  | add kind => exact kept.live_add kind (room kind rfl)
  | remove id => exact kept.live_remove id
  | clear =>
      intro id kind
      rw [Live.concat_iff]
      simp [StoreOperation.perform, Store.clear, get?]
  | get | list | ids | size | isEmpty =>
      exact kept.live_of_kinds (fun _ => rfl) ⟨rfl, by simp, by simp⟩
  | setEnabled id enabled =>
      exact kept.live_of_kinds (kinds_of_changes meets fun _ => rfl) ⟨rfl, by simp, by simp⟩
  | setCondition id condition =>
      exact kept.live_of_kinds (kinds_of_changes meets fun _ => rfl) ⟨rfl, by simp, by simp⟩
  | setTarget id target =>
      exact kept.live_of_kinds (kinds_of_changes meets fun _ => rfl) ⟨rfl, by simp, by simp⟩
  | shouldBreak site =>
      exact kept.live_of_kinds (kinds_of_visited meets.2) ⟨rfl, by simp, by simp⟩

theorem reorder (kept : Kept past s) {entries : List Breakpoint} (order : entries.Perm s.entries) :
    Kept past { s with entries } where
  toNumbered := kept.toNumbered.reorder order
  live := by rw [get?_of_perm kept.distinct order]; exact kept.live

end Kept

namespace History
variable {past : List Deed} {s : Store}

theorem kept (history : History past s) (few : (handedOut past).length ≤ UInt32.size) :
    Kept past s := by
  induction history with
  | fresh => exact ⟨.empty, fun id kind => by simp [Live, get?]⟩
  | perform operation _ ih =>
      rw [handedOut_concat, List.length_append] at few
      refine (ih (by omega)).perform fun kind adds => ?_
      subst adds
      exact few
  | reorder _ order ih => exact (ih few).reorder order

/-- Each answer of a history was given by a store that the deeds before it lead to. -/
theorem answered (history : History past s) {before after : List Deed}
    {operation : StoreOperation} {answer : StoreAnswer}
    (split : past = before ++ (operation, answer) :: after) :
    ∃ s, History before s ∧ (operation.perform s).1 = answer := by
  induction history generalizing after with
  | fresh => simp at split
  | reorder _ _ ih => exact ih split
  | @perform last past s history ih =>
      rcases List.eq_nil_or_concat after with rfl | ⟨after, other, rfl⟩
      · obtain ⟨rfl, same⟩ := List.append_inj' split rfl
        obtain ⟨rfl, given⟩ := Prod.mk.inj (List.singleton_inj.mp same)
        exact ⟨s, history, given⟩
      · rw [List.concat_eq_append, ← List.cons_append, ← List.append_assoc] at split
        exact ih (List.append_inj' split rfl).1

theorem get?_of_removed (history : History past s) (few : (handedOut past).length ≤ UInt32.size)
    {before after : List Deed} {id : BreakpointId}
    (split : past = before ++ (.remove id, .flag true) :: after) :
    id ∉ handedOut after ∧ s.get? id = none := by
  have kept := history.kept few
  have distinct := kept.nodup_handedOut few
  obtain ⟨s₁, earlier, removed⟩ := history.answered split
  have parts : handedOut past = handedOut before ++ handedOut after := by
    rw [split, handedOut, List.filterMap_append]
    rfl
  rw [parts, List.length_append] at few
  rw [parts, List.nodup_append] at distinct
  obtain ⟨b, found⟩ : ∃ b, s₁.get? id = some b :=
    Option.isSome_iff_exists.mp (StoreAnswer.flag.inj removed)
  have issued : id ∈ handedOut before :=
    (((earlier.kept (by omega)).live id b.kind).mp (by rw [found]; rfl)).mem_handedOut
  have never : id ∉ handedOut after := fun again => distinct.2.2 id issued id again rfl
  refine ⟨never, ?_⟩
  cases found : s.get? id with
  | none => rfl
  | some b =>
      have live := (kept.live id b.kind).mp (by rw [found]; rfl)
      rw [split] at live
      exact absurd rfl (live.spared never _ List.mem_cons_self).1

theorem performAll (operations : List StoreOperation) (history : History past s) :
    History (past ++ operations.zip (StoreOperation.performAll s operations).1)
      (StoreOperation.performAll s operations).2.2 := by
  induction operations generalizing past s with
  | nil =>
      simpa [StoreOperation.performAll] using history
  | cons operation rest ih =>
      have later := ih (history.perform operation)
      rwa [List.append_assoc] at later

end History

/-- Whatever is done to a store with at most as many additions as there are sequence
numbers, and whatever the visiting order, no identifier is handed out twice; the store
holds what was added and neither removed nor cleared away since, of the kind it was added
with; listing gives each of these once in the order of the identifiers; every operation
answers, and changes the map, as it should; and an identifier that was removed is never
found or handed out again. -/
theorem history_refines_registry {past : List Deed} {s : Store} (history : History past s)
    (few : (handedOut past).length ≤ UInt32.size) :
    (handedOut past).Nodup ∧
    (∀ id kind, (∃ b, s.get? id = some b ∧ b.id = id ∧ b.kind = kind) ↔ Live past id kind) ∧
    Registry.Lists s.get? s.list ∧ s.size = s.list.length ∧ s.isEmpty = s.list.isEmpty ∧
    (∀ operation, Room past operation → Registry.Meets s.get? (operation.perform s).1
      (operation.perform s).2.2.get? operation) ∧
    ∀ before id after, past = before ++ (.remove id, .flag true) :: after →
      id ∉ handedOut after ∧ s.get? id = none := by
  have kept := history.kept few
  refine ⟨kept.nodup_handedOut few, fun id kind => ?_, lists_list kept.distinct,
    (KeyOrder.sort_perm _ _).length_eq.symm, (KeyOrder.sort_perm _ _).isEmpty_eq.symm,
    fun operation room => kept.meets room, fun _ _ _ split => history.get?_of_removed few split⟩
  rw [← kept.live, Option.map_eq_some_iff]
  exact exists_congr fun b => ⟨fun ⟨found, _, kind⟩ => ⟨found, kind⟩,
    fun ⟨found, kind⟩ => ⟨found, id_of_get? found, kind⟩⟩

/-- Two additions, and the first one is removed: it is not found again, not even by a second
removal, and the other one is still there. -/
theorem history_refines_registry_behind_removal :
    let first : BreakpointId := ⟨"9e3779b1"⟩
    let second : BreakpointId := ⟨"3c6ef362"⟩
    let past : List Deed := [(.add (.line "a" 3), .id first),
      (.add (.function "f" true), .id second), (.remove first, .flag true)]
    ∃ s, History past s ∧ (handedOut past).length ≤ UInt32.size ∧ (handedOut past).Nodup ∧
      (∃ b, s.get? second = some b ∧ b.id = second ∧ b.kind = .function "f" true) ∧
      s.size = s.list.length ∧ s.get? first = none ∧
      ((StoreOperation.remove first).perform s).1 = .flag false := by
  intro first second past
  let operations : List StoreOperation :=
    [.add (.line "a" 3), .add (.function "f" true), .remove first]
  have done : operations.zip (StoreOperation.performAll {} operations).1 = past := by
    decide +kernel
  have history : History past _ := done ▸ History.fresh.performAll operations
  have few : (handedOut past).length ≤ UInt32.size := by decide
  obtain ⟨distinct, live, -, size, -, meets, removed⟩ := history_refines_registry history few
  obtain ⟨-, gone⟩ := removed [_, _] first [] rfl
  have again := (meets (.remove first) fun _ adds => nomatch adds).1
  rw [gone] at again
  refine ⟨_, history, few, distinct, (live second _).mpr ⟨[_], [_], rfl, ?_⟩, size, gone, again⟩
  decide

end Store
end Debugger
