import Debugger.Proofs.CallTree.Calls

/-! Hooks that refuse an entry. Main statement: a run whose hook refuses one entry makes
the calls of the run without a refusal up to that entry, and then the last one. -/
namespace Debugger

namespace HookCall
variable {σ : Type}

def isEntry : HookCall → Bool
  | .enter .. => true
  | _ => false

def isExit : HookCall → Bool
  | .exit _ => true
  | _ => false

def entryCount (calls : List HookCall) : Nat :=
  calls.countP isEntry

def exitCount (calls : List HookCall) : Nat :=
  calls.countP isExit

@[simp] theorem entryCount_nil : entryCount [] = 0 := rfl

@[simp] theorem exitCount_nil : exitCount [] = 0 := rfl

@[simp] theorem entryCount_cons (call : HookCall) (rest : List HookCall) :
    entryCount (call :: rest) = entryCount rest + if call.isEntry then 1 else 0 :=
  List.countP_cons

@[simp] theorem exitCount_cons (call : HookCall) (rest : List HookCall) :
    exitCount (call :: rest) = exitCount rest + if call.isExit then 1 else 0 :=
  List.countP_cons

/-- Calls that lead from one number of open nodes to another: an entry has the depth of
its node, and only an open node exits. -/
inductive Levels : Nat → List HookCall → Nat → Prop where
  | done (n : Nat) : Levels n [] n
  | capture (context : Context) : Levels n rest m → Levels n (.capture context :: rest) m
  | enter (expression : Expression) (parent : Option Expression) : Levels (n + 1) rest m →
      Levels n (.enter expression parent (n + 1) :: rest) m
  | exit (expression : Expression) : Levels n rest m → Levels (n + 1) (.exit expression :: rest) m

namespace Levels
variable {n m k : Nat} {first second : List HookCall}

theorem append (before : Levels n first k) (behind : Levels k second m) :
    Levels n (first ++ second) m := by
  induction before with
  | done => exact behind
  | capture context _ ih => exact .capture context (ih behind)
  | enter expression parent _ ih => exact .enter expression parent (ih behind)
  | exit expression _ ih => exact .exit expression (ih behind)

/-- An entry has as its depth the nodes that are entered by then and have not exited. -/
theorem depth_entry {expression : Expression} {parent : Option Expression} {depth : Nat}
    (levels : Levels n (first ++ .enter expression parent depth :: second) m) :
    n + entryCount first + 1 = exitCount first + depth := by
  induction first generalizing n with
  | nil =>
      cases levels
      simp
  | cons call rest ih =>
      cases levels with
      | capture _ levels => simpa [isEntry, isExit] using ih levels
      | enter _ _ levels =>
          have below := ih levels
          simp [isEntry, isExit] at below ⊢
          omega
      | exit _ levels =>
          have above := ih levels
          simp [isEntry, isExit] at above ⊢
          omega

end Levels

/-- A node's calls leave as many nodes open as they find. -/
theorem levels_hookCalls (call : Call) : ∀ path : List Call,
    Levels path.length (call.hookCalls path) path.length := by
  refine Call.rec
    (motive_1 := fun call => ∀ path : List Call,
      Levels path.length (call.hookCalls path) path.length)
    (motive_2 := fun calls => ∀ path : List Call,
      Levels path.length (Call.hookCallsAll path calls) path.length) ?_ ?_ ?_ call
  · intro function lambda span bindings typeArguments children ih path
    have below := ih (path ++ [.mk function lambda span bindings typeArguments children])
    rw [List.length_append, List.length_singleton] at below
    rw [Call.hookCalls, List.length_append, List.length_singleton]
    exact .capture _ (.enter _ _ (below.append (.exit _ (.done _))))
  · intro path
    exact .done _
  · intro call rest first others path
    exact (first path).append (others path)

theorem entryCount_turns (turns : List Turn) :
    entryCount (turns.flatMap Turn.hookCalls) = (Turn.visits turns).length := by
  induction turns with
  | nil => rfl
  | cons turn rest ih =>
      cases turn with
      | enter v => simpa [Turn.hookCalls, Turn.visits, isEntry] using ih
      | exit call => simpa [Turn.hookCalls, Turn.visits, isEntry] using ih

/-- What a hook answers to the entries among calls that are all made in order. -/
def answers (hook : Hook (StateM σ)) : List HookCall → σ → List (Except DebugError Unit)
  | [], _ => []
  | call :: rest, s =>
      let rest := answers hook rest (call.make hook s).2
      if call.isEntry then (call.make hook s).1 :: rest else rest

theorem answers_append (hook : Hook (StateM σ)) (first second : List HookCall) (s : σ) :
    answers hook (first ++ second) s =
      answers hook first s ++ answers hook second (makeAll hook first s).2 := by
  induction first generalizing s with
  | nil => rfl
  | cons call rest ih =>
      rw [List.cons_append, answers, answers, ih]
      split <;> rfl

end HookCall

/-- Among these calls the hook accepts the entries before the one named by the refusal,
and refuses that one. -/
def Hook.Refuses {σ : Type} (hook : Hook (StateM σ)) (refusal : Refusal) (calls : List HookCall)
    (s : σ) : Prop :=
  ∀ j answer, (HookCall.answers hook calls s)[j]? = some answer → j < refusal.entry →
    answer = if j + 1 = refusal.entry then .error refusal.error else .ok ()

namespace HookCall
variable {σ : Type} {hook : Hook (StateM σ)} {e : DebugError} {s : σ}

theorem attempt_cons (call : HookCall) (rest : List HookCall) (s : σ) :
    attempt hook (call :: rest) s =
      match (call.make hook s).1 with
      | .error e => (.error e, (call.make hook s).2)
      | .ok () => attempt hook rest (call.make hook s).2 := by
  simp only [attempt, bind, StateT.bind]
  rcases call.make hook s with ⟨answer, s'⟩
  cases answer <;> rfl

theorem make_of_not_entry {call : HookCall} (other : call.isEntry = false) (s : σ) :
    (call.make hook s).1 = .ok () := by
  cases call with
  | enter => contradiction
  | _ => rfl

theorem refuses_rest {k : Nat} {call : HookCall} {rest : List HookCall}
    (other : call.isEntry = false) (refuses : hook.Refuses ⟨k, e⟩ (call :: rest) s) :
    hook.Refuses ⟨k, e⟩ rest (call.make hook s).2 := by
  intro j answer found
  exact refuses j answer (by simpa [answers, other] using found)

/-- The entry that counts as the first is refused, and a later one still counts as the
one before. -/
theorem refuses_entry {k : Nat} {call : HookCall} {rest : List HookCall}
    (entry : call.isEntry = true) (refuses : hook.Refuses ⟨k + 1, e⟩ (call :: rest) s) :
    (call.make hook s).1 = (if k = 0 then .error e else .ok ()) ∧
      hook.Refuses ⟨k, e⟩ rest (call.make hook s).2 := by
  refine ⟨?_, fun j answer found before => ?_⟩
  · have first := refuses 0 (call.make hook s).1 (by simp [answers, entry]) (Nat.succ_pos k)
    simpa [eq_comm] using first
  · have next := refuses (j + 1) answer (by simpa [answers, entry] using found)
      (Nat.succ_lt_succ before)
    simpa using next

theorem attempt_short {k : Nat} (calls : List HookCall) (short : entryCount calls < k)
    (refuses : hook.Refuses ⟨k, e⟩ calls s) :
    attempt hook calls s = (.ok (), (makeAll hook calls s).2) := by
  induction calls generalizing k s with
  | nil => rfl
  | cons call rest ih =>
      rw [attempt_cons]
      cases entry : call.isEntry with
      | false =>
          rw [make_of_not_entry entry]
          exact ih (by simpa [entry] using short) (refuses_rest entry refuses)
      | true =>
          obtain ⟨k, rfl⟩ := Nat.exists_eq_add_one_of_ne_zero (Nat.ne_zero_of_lt short)
          simp only [entryCount_cons, entry, if_true, Nat.add_lt_add_iff_right] at short
          obtain ⟨answer, later⟩ := refuses_entry entry refuses
          rw [answer, if_neg (Nat.ne_zero_of_lt short)]
          exact ih short later

/-- Otherwise the refused entry is the last call that is made. -/
theorem attempt_refused {k : Nat} (calls : List HookCall) (counted : 1 ≤ k)
    (reaches : k ≤ entryCount calls) :
    ∃ before expression parent depth after,
      calls = before ++ .enter expression parent depth :: after ∧
      entryCount before + 1 = k ∧
      ∀ {σ : Type} {hook : Hook (StateM σ)} {s : σ}, hook.Refuses ⟨k, e⟩ calls s →
        attempt hook calls s =
          (.error e, (makeAll hook (before ++ [.enter expression parent depth]) s).2) := by
  -- Each entry that is accepted counts k down, so the refused one is found at one. Where
  -- the calls are cut does not depend on the hook, which comes last for that reason.
  induction calls generalizing k with
  | nil => exact absurd reaches (by simp; omega)
  | cons call rest ih =>
      cases entry : call.isEntry with
      | false =>
          obtain ⟨before, expression, parent, depth, after, split, count, ends⟩ :=
            ih counted (by simpa [entry] using reaches)
          refine ⟨call :: before, expression, parent, depth, after, ?_, ?_, ?_⟩
          · rw [split, List.cons_append]
          · simpa [entry] using count
          · intro σ hook s refuses
            rw [attempt_cons, make_of_not_entry entry]
            exact ends (refuses_rest entry refuses)
      | true =>
          obtain ⟨k, rfl⟩ := Nat.exists_eq_add_one_of_ne_zero (Nat.ne_zero_of_lt counted)
          simp only [entryCount_cons, entry, if_true, Nat.add_le_add_iff_right] at reaches
          rcases Nat.eq_zero_or_pos k with rfl | later
          · cases call with
            | enter expression parent depth =>
                refine ⟨[], expression, parent, depth, rest, rfl, rfl, ?_⟩
                intro σ hook s refuses
                rw [attempt_cons, (refuses_entry entry refuses).1]
                rfl
            | _ => contradiction
          · obtain ⟨before, expression, parent, depth, after, split, count, ends⟩ :=
              ih later reaches
            refine ⟨call :: before, expression, parent, depth, after, ?_, ?_, ?_⟩
            · rw [split, List.cons_append]
            · simpa [entry] using count
            · intro σ hook s refuses
              obtain ⟨answer, refuses⟩ := refuses_entry entry refuses
              rw [attempt_cons, answer, if_neg (Nat.pos_iff_ne_zero.mp later)]
              exact ends refuses

theorem makeAll_between (hook : Hook (StateM σ)) (function : Expression) (calls : List HookCall)
    (s : σ) :
    (makeAll hook (.start function :: (calls ++ [.finish function])) s).2 =
      (hook.finish function (makeAll hook calls (hook.start function s).2).2).2 := by
  rw [makeAll, makeAll_append]
  rfl

end HookCall

namespace Recording
open HookCall

theorem make_hook (refusal : Option Refusal) (call : HookCall) (r : Recording) :
    (call.make (hook refusal) r).2 =
      ⟨r.calls.push call, r.entries + if call.isEntry then 1 else 0⟩ := by
  cases call with
  | enter expression parent depth => cases refusal <;> rfl
  | _ => rfl

theorem makeAll_hook (refusal : Option Refusal) (calls : List HookCall) (r : Recording) :
    (makeAll (hook refusal) calls r).2 =
      ⟨r.calls ++ calls.toArray, r.entries + entryCount calls⟩ := by
  induction calls generalizing r with
  | nil =>
      change r = _
      simp
  | cons call rest ih =>
      change (makeAll (hook refusal) rest (call.make (hook refusal) r).2).2 = _
      rw [make_hook, ih]
      simp [Nat.add_comm, Nat.add_left_comm]

theorem answers_hook (refusal : Refusal) (calls : List HookCall) (r : Recording) (j : Nat)
    {answer : Except DebugError Unit}
    (found : (answers (hook (some refusal)) calls r)[j]? = some answer) :
    answer = if r.entries + j + 1 = refusal.entry then .error refusal.error else .ok () := by
  induction calls generalizing r j with
  | nil => simp [answers] at found
  | cons call rest ih =>
      rw [answers, make_hook] at found
      cases entry : call.isEntry with
      | false =>
          simp only [entry, Bool.false_eq_true, if_false] at found
          simpa using ih _ j found
      | true =>
          simp only [entry, if_true] at found
          cases j with
          | zero =>
              cases call with
              | enter expression parent depth =>
                  refine (Option.some.inj found).symm.trans ?_
                  simp only [make, hook, eq_comm]
                  rfl
              | _ => contradiction
          | succ j =>
              have later := ih _ j found
              simpa [Nat.add_comm, Nat.add_left_comm] using later

theorem refuses_hook (refusal : Refusal) (calls : List HookCall) :
    (hook (some refusal)).Refuses refusal calls {} := by
  intro j answer found _
  simpa using answers_hook refusal calls {} j found

theorem accepts_hook : (hook none).Accepts :=
  fun _ _ _ => rfl

end Recording

namespace CallTree
open HookCall
variable {σ : Type} {hook : Hook (StateM σ)} {s : σ} {k : Nat} {e : DebugError}

theorem run_eq_attempt_state (tree : CallTree) (hook : Hook (StateM σ)) (s : σ) :
    tree.run hook s =
      let attempted := attempt hook (tree.main.hookCalls []) (hook.start tree.main.expression s).2
      (attempted.1.map fun () => tree.main.size,
        (hook.finish tree.main.expression attempted.2).2) := by
  rw [run_eq_attempt]
  rfl

theorem refuses_main {tree : CallTree} (refuses : hook.Refuses ⟨k, e⟩ tree.hookCalls s) :
    hook.Refuses ⟨k, e⟩ (tree.main.hookCalls []) (hook.start tree.main.expression s).2 := by
  intro j answer found
  have last : answers hook tree.hookCalls s =
      answers hook (tree.main.hookCalls []) (hook.start tree.main.expression s).2 ++ [] :=
    answers_append hook (tree.main.hookCalls []) [.finish tree.main.expression] _
  exact refuses j answer (by rwa [last, List.append_nil])

theorem entryCount_main (tree : CallTree) :
    entryCount (tree.main.hookCalls []) = tree.main.size := by
  rw [← tree.length_visits, visits, ← entryCount_turns, turns]
  exact congrArg entryCount (tree.main.hookCalls_turns []).symm

theorem run_short (tree : CallTree) (short : tree.main.size < k)
    (refuses : hook.Refuses ⟨k, e⟩ tree.hookCalls s) :
    tree.run hook s = (.ok tree.main.size, (makeAll hook tree.hookCalls s).2) := by
  have attempted := attempt_short _ (by rwa [entryCount_main]) (refuses_main refuses)
  rw [run_eq_attempt_state, attempted, hookCalls, makeAll_between]
  rfl

theorem run_refused (tree : CallTree) (counted : 1 ≤ k) (reaches : k ≤ tree.main.size) :
    ∃ before expression parent depth after,
      tree.hookCalls = before ++ .enter expression parent depth :: after ∧
      entryCount before + 1 = k ∧ exitCount before + depth = k ∧
      ∀ {σ : Type} {hook : Hook (StateM σ)} {s : σ}, hook.Refuses ⟨k, e⟩ tree.hookCalls s →
        tree.run hook s = (.error e, (makeAll hook
          (before ++ [.enter expression parent depth, .finish tree.main.expression]) s).2) := by
  obtain ⟨before, expression, parent, depth, after, split, count, ends⟩ :=
    attempt_refused (e := e) (tree.main.hookCalls []) counted (by rwa [entryCount_main])
  refine ⟨.start tree.main.expression :: before, expression, parent, depth,
    after ++ [.finish tree.main.expression], ?_, ?_, ?_, ?_⟩
  · simp [hookCalls, split]
  · simpa [isEntry] using count
  · have levels := levels_hookCalls tree.main []
    rw [split] at levels
    have open_ := levels.depth_entry
    simp [isExit] at open_ ⊢
    omega
  · intro σ hook s refuses
    have made := makeAll_between hook tree.main.expression
      (before ++ [.enter expression parent depth]) s
    rw [List.append_assoc, List.singleton_append] at made
    rw [run_eq_attempt_state, ends (refuses_main refuses), List.cons_append, made]
    rfl

/-- Let a hook refuse the k-th entry. If there is one the run returns the error of the
refusal. It has made the calls of the run without a refusal up to that entry, and the
last call; no call is made for an open node any more, so that the exits made and the
depth of the refused entry add up to k. A program with fewer entries runs as without a
refusal. -/
theorem refused_entry_ends_run (tree : CallTree) {refusal : Refusal}
    (counted : 1 ≤ refusal.entry) {hook : Hook (StateM σ)} {s : σ}
    (refuses : hook.Refuses refusal tree.hookCalls s) :
    let free := tree.run (Recording.hook none) {}
    let refused := tree.run (Recording.hook (some refusal)) {}
    (refusal.entry ≤ tree.main.size → ∃ before expression parent depth after,
      free.2.calls.toList = before ++ .enter expression parent depth :: after ∧
      entryCount before + 1 = refusal.entry ∧ exitCount before + depth = refusal.entry ∧
      let made := before ++ [.enter expression parent depth, .finish tree.main.expression]
      refused.1 = .error refusal.error ∧ refused.2.calls.toList = made ∧
        tree.run hook s = (.error refusal.error, (makeAll hook made s).2)) ∧
    (tree.main.size < refusal.entry → refused = free ∧
      tree.run hook s = (.ok tree.main.size, (makeAll hook free.2.calls.toList s).2)) := by
  intro free refused
  have whole : free = (.ok tree.main.size, (makeAll (Recording.hook none) tree.hookCalls {}).2) :=
    congrFun (run_of_accepts tree Recording.accepts_hook) {}
  have recorded (refusal : Option Refusal) (calls : List HookCall) :
      (makeAll (Recording.hook refusal) calls {}).2 = ⟨calls.toArray, entryCount calls⟩ := by
    rw [Recording.makeAll_hook, Array.empty_append, Nat.zero_add]
  rw [recorded] at whole
  have refusesToo := Recording.refuses_hook refusal tree.hookCalls
  refine ⟨fun reaches => ?_, fun short => ?_⟩
  · obtain ⟨before, expression, parent, depth, after, split, entered, exited, ends⟩ :=
      run_refused (e := refusal.error) tree counted reaches
    have refusedRun : refused = _ := ends refusesToo
    rw [recorded] at refusedRun
    rw [whole, refusedRun]
    exact ⟨before, expression, parent, depth, after, split, entered, exited, rfl, rfl,
      ends refuses⟩
  · have refusedRun : refused = _ := run_short tree short refusesToo
    rw [recorded] at refusedRun
    rw [whole, refusedRun]
    exact ⟨rfl, run_short tree short refuses⟩

/-- A hook that refuses a function by its name, and counts the exits: the fourth entry,
at depth three, is refused when one call has exited. -/
theorem refused_entry_ends_run_by_name :
    let call (name : String) (children : List Call) :=
      Call.mk (some name) none none [] [] children
    let tree : CallTree := ⟨call "main" [call "first" [], call "outer" [call "inner" []]]⟩
    let hook : Hook (StateM Nat) :=
      { Hook.quiet with
        enter := fun expression _ _ =>
          return if expression.declaredName = some "inner" then .error .interrupted else .ok ()
        exit := fun _ => modify (· + 1) }
    1 ≤ 4 ∧ hook.Refuses ⟨4, .interrupted⟩ tree.hookCalls 0 ∧
      ∃ before expression parent depth after,
        tree.hookCalls = before ++ .enter expression parent depth :: after ∧
        entryCount before + 1 = 4 ∧ exitCount before + depth = 4 ∧
        tree.run hook 0 = (.error .interrupted, (makeAll hook
          (before ++ [.enter expression parent depth, .finish tree.main.expression]) 0).2) := by
  intro call tree hook
  have answered : answers hook tree.hookCalls 0 =
      [.ok (), .ok (), .ok (), .error .interrupted] := rfl
  have refuses : hook.Refuses ⟨4, .interrupted⟩ tree.hookCalls 0 := by
    intro j answer found before
    rw [answered] at found
    rcases j with _ | _ | _ | _ | j
    iterate 4 exact (Option.some.inj found).symm
    exact absurd before (Nat.not_lt.mpr (Nat.le_add_left 4 j))
  have recorded : (tree.run (Recording.hook none) {}).2.calls.toList = tree.hookCalls := by
    rw [run_of_accepts tree Recording.accepts_hook]
    exact congrArg (·.calls.toList) (Recording.makeAll_hook none tree.hookCalls {})
  obtain ⟨before, expression, parent, depth, after, split, entered, exited, -, -, ends⟩ :=
    (refused_entry_ends_run tree (by decide) refuses).1 (by decide)
  exact ⟨by decide, refuses, before, expression, parent, depth, after, recorded ▸ split, entered,
    exited, ends⟩

end CallTree
end Debugger
