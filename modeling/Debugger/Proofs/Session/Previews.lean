import Debugger.Proofs.Config.Budget
import Debugger.Proofs.Session.Reachable
import Debugger.Proofs.Variable.Truncation

/-! Main statement: the preview budget that settings give is the budget of every variable that
can be had from a pause of a session with these settings, whatever programs run there and
whoever commands them. -/
namespace Debugger

namespace Variable

/-- What is shown of the value where the budget does not cut it. -/
def printed (v : Variable) : String :=
  match v.value with
  | none => "nil"
  | some value => value.print

/-- The variable is shown with a value within the budget. A value beyond it fills the budget
with some of its characters and an ellipsis. -/
def ShownWithin (budget : Nat) (v : Variable) : Prop :=
  ∃ p : String, v.render = v.name ++ ": " ++ v.typeName ++ " = " ++ p ∧ p.length ≤ budget ∧
    (v.printed.length ≤ budget → p = v.printed) ∧
    (budget < v.printed.length → p.length = budget ∧
      ∃ shown, shown ≠ [] ∧ shown <+: v.printed.toList ∧ p.toList = shown ++ Preview.ellipsis)

theorem preview_of_le {v : Variable} {budget : Nat} (fits : v.printed.length ≤ budget) :
    v.preview budget = v.printed := by
  obtain ⟨name, _ | value, isLocal, previewLength⟩ := v
  · rfl
  · have whole : Preview.truncate budget value.print.toList = value.print.toList :=
      Preview.truncate_of_le fits
    change String.ofList (Preview.truncate budget value.print.toList) = value.print
    rw [whole, String.ofList_toList]

theorem preview_of_lt {v : Variable} {budget : Nat} (enough : minPreviewLength ≤ budget)
    (long : budget < v.printed.length) :
    (v.preview budget).toList = v.printed.toList.take (budget - 3) ++ Preview.ellipsis := by
  have least : 4 ≤ budget := enough
  obtain ⟨kept, rfl⟩ : ∃ kept, budget = kept + 3 := ⟨budget - 3, by omega⟩
  obtain ⟨name, _ | value, isLocal, previewLength⟩ := v
  · have short : kept + 3 < "nil".length := long
    rw [show "nil".length = 3 by decide] at short
    omega
  · have cut : Preview.truncate (kept + 3) value.print.toList =
        value.print.toList.take kept ++ Preview.ellipsis := Preview.truncate_of_room long
    change (String.ofList (Preview.truncate (kept + 3) value.print.toList)).toList = _
    rw [cut, String.toList_ofList]
    rfl

theorem shownWithin {v : Variable} (enough : minPreviewLength ≤ v.previewLength) :
    v.ShownWithin v.previewLength := by
  have least : 4 ≤ v.previewLength := enough
  refine ⟨v.preview v.previewLength, rfl, ?_, fun fits => preview_of_le fits, fun long => ?_⟩
  · rcases Nat.lt_or_ge v.previewLength v.printed.length with long | fits
    · rw [← String.length_toList, preview_of_lt enough long]
      simp [Preview.ellipsis]
      omega
    · rwa [preview_of_le fits]
  · have shown := preview_of_lt enough long
    rw [← String.length_toList] at long
    refine ⟨?_, v.printed.toList.take (v.previewLength - 3), ?_, List.take_prefix _ _, shown⟩
    · rw [← String.length_toList, shown]
      simp [Preview.ellipsis]
      omega
    · intro empty
      rw [List.take_eq_nil_iff, ← List.length_eq_zero_iff] at empty
      omega

end Variable

namespace Snapshot
variable {s : Snapshot} {v : Variable}

/-- A variable that can be had from the view, with all others or by its name. -/
def Offers (s : Snapshot) (v : Variable) : Prop :=
  v ∈ s.visibleVariables ∨ ∃ name, s.find? name = some v

theorem Offers.previewLength (offers : s.Offers v) : v.previewLength = s.previewLength := by
  have listed {isLocal : Bool} {scope : Scope}
      (member : v ∈ variablesOf s.previewLength isLocal scope) :
      v.previewLength = s.previewLength := by
    obtain ⟨name, -, rfl⟩ := List.mem_map.mp member
    rfl
  obtain visible | ⟨name, found⟩ := offers
  · rw [visibleVariables] at visible
    split at visible
    · exact absurd visible List.not_mem_nil
    · obtain innermost | outer := List.mem_append.mp visible
      · exact listed innermost
      · obtain ⟨scope, -, member⟩ := List.mem_flatMap.mp outer
        exact listed member
  · obtain ⟨value, -, rfl⟩ := Option.map_eq_some_iff.mp found
    rfl

end Snapshot
variable {ε ℓ : Type}

/-- The view of the pause that an event reports. -/
def Event.view? : Event → Option Snapshot
  | .paused _ _ snapshot => some snapshot
  | _ => none

/-- The view of the pause that is outstanding. -/
def Standing.view? (st : Standing ℓ) : Option Snapshot :=
  st.current.map (·.snapshot)

def Note.views (note : Note ℓ) : List Snapshot :=
  let reported : Option Snapshot :=
    match note with
    | .told _ event _ => event.view?
    | _ => none
  reported.toList ++ note.standings.filterMap Standing.view?

/-- The views of all pauses that anybody has come across so far. -/
def Session.views (s : Chronicled ε ℓ) : List Snapshot :=
  s.standing.view?.toList ++ s.notes.flatMap Note.views

theorem Note.mem_views_told {listener : ℓ} {event : Event} {found : Standing ℓ}
    {view : Snapshot} :
    view ∈ (Note.told listener event found).views ↔
      event.view? = some view ∨ found.view? = some view := by
  simp [views, standings]

/-- Where no pause is reported, only the one outstanding can be come across. -/
theorem Traces.views [DecidableEq ℓ] {found left : Standing ℓ} {notes : List (Note ℓ)}
    (traces : Traces found notes left) (quiet : heard notes = []) :
    ∀ note ∈ notes, ∀ view ∈ note.views, found.view? = some view := by
  induction traces with
  | done => exact fun note member => absurd member List.not_mem_nil
  | told listener event _ ih =>
      rw [heard_told, List.append_eq_nil_iff] at quiet
      obtain ⟨unheard, quiet⟩ := quiet
      refine List.forall_mem_cons.mpr ⟨fun view member => ?_, ih quiet⟩
      refine (Note.mem_views_told.mp member).resolve_left fun reported => ?_
      cases event with
      | paused => cases unheard
      | _ => cases reported
  | granted demand here traces ih =>
      refine List.forall_mem_cons.mpr ⟨fun view member => ?_, fun note later view member => ?_⟩
      · simpa [Note.views, Note.standings, Standing.grant, Standing.view?] using member
      · cases ih quiet note later view member
  | refused demand free _ ih =>
      refine List.forall_mem_cons.mpr ⟨fun view member => ?_, ih quiet⟩
      simpa [Note.views, Note.standings] using member
  | changed breakpoints steps _ ih =>
      refine List.forall_mem_cons.mpr ⟨fun view member => ?_, ih quiet⟩
      simpa [Note.views, Note.standings, Standing.view?] using member
  | added listener _ ih | removed listener _ ih =>
      exact List.forall_mem_cons.mpr ⟨fun view member => absurd member List.not_mem_nil, ih quiet⟩

namespace Session

/-- Whatever pause anybody comes across has this preview budget. -/
structure Budgeted (budget : Nat) (s : Chronicled ε ℓ) : Prop where
  reachable : s.Reachable
  previews : s.previewLength = budget
  views : ∀ view ∈ s.views, view.previewLength = budget

namespace Budgeted
variable {budget : Nat} {s s' : Chronicled ε ℓ}

theorem new (config : Config) (own : ε) :
    Budgeted config.previewLength (Session.new config ⟨own, []⟩ : Chronicled ε ℓ) :=
  ⟨.new config _, rfl, fun _ member => absurd member List.not_mem_nil⟩

theorem invariant : Invariant (Budgeted (ε := ε) (ℓ := ℓ) budget) where
  note diagnostics s budgeted :=
    ⟨Reachable.invariant.note diagnostics s budgeted.reachable, budgeted.previews, budgeted.views⟩
  setActive active s budgeted :=
    ⟨Reachable.invariant.setActive active s budgeted.reachable, budgeted.previews, budgeted.views⟩
  captured context s budgeted :=
    ⟨Reachable.invariant.captured context s budgeted.reachable, budgeted.previews, budgeted.views⟩
  decided expression depth s budgeted :=
    ⟨Reachable.invariant.decided expression depth s budgeted.reachable, budgeted.previews,
      budgeted.views⟩
  exited expression s budgeted :=
    ⟨Reachable.invariant.exited expression s budgeted.reachable, budgeted.previews, budgeted.views⟩
  install expression reason depth s budgeted := by
    refine ⟨.install expression reason depth budgeted.reachable, budgeted.previews, ?_⟩
    intro view member
    obtain here | noted := List.mem_append.mp member
    · obtain rfl := List.mem_singleton.mp here
      exact budgeted.previews
    · exact budgeted.views view (List.mem_append_right _ noted)
  leave pause r s budgeted := by
    refine ⟨.leave pause r budgeted.reachable, budgeted.previews, fun view member => ?_⟩
    refine budgeted.views view ?_
    obtain here | noted := List.mem_append.mp member
    · obtain ⟨current, kept, rfl⟩ := Option.map_eq_some_iff.mp (Option.mem_toList.mp here)
      refine List.mem_append_left _ (Option.mem_toList.mpr ?_)
      exact congrArg (Option.map _) (Option.filter_eq_some_iff.mp kept).1
    · exact List.mem_append_right _ noted

/-- A pause is reported with the budget of the session. -/
theorem tells : Tells (Budgeted (ε := ε) (ℓ := ℓ) budget)
    fun event => ∀ view, event.view? = some view → view.previewLength = budget where
  started _ _ none := nomatch none
  ended _ _ none := nomatch none
  resumed _ none := nomatch none
  paused _ _ _ _ budgeted _ some := Option.some.inj some ▸ budgeted.previews

theorem told (budgeted : Budgeted budget s) (listener : ℓ) {event : Event}
    (reported : ∀ view, event.view? = some view → view.previewLength = budget) :
    Budgeted budget (s.jot (.told listener event s.standing)) := by
  refine ⟨.host _ budgeted.reachable, budgeted.previews, fun view member => ?_⟩
  obtain here | noted := List.mem_append.mp member
  · exact budgeted.views view (List.mem_append_left _ here)
  · rw [show (s.jot (.told listener event s.standing)).notes =
      s.notes ++ [.told listener event s.standing] from rfl, List.flatMap_append,
      List.mem_append, List.flatMap_singleton, Note.mem_views_told] at noted
    obtain earlier | now | outstanding := noted
    · exact budgeted.views view (List.mem_append_right _ earlier)
    · exact reported view now
    · exact budgeted.views view (List.mem_append_left _ (Option.mem_toList.mpr outstanding))

variable [DecidableEq ℓ]

theorem course (budgeted : Budgeted budget s) {notes : List (Note ℓ)} (course : Course s notes s')
    (quiet : heard notes = []) (reachable : s'.Reachable) : Budgeted budget s' := by
  refine ⟨reachable, course.previews.trans budgeted.previews, fun view member => ?_⟩
  have outstanding (view : Snapshot) (here : s.standing.view? = some view) :
      view.previewLength = budget :=
    budgeted.views view (List.mem_append_left _ (Option.mem_toList.mpr here))
  obtain here | noted := List.mem_append.mp member
  · refine outstanding view ?_
    rw [Option.mem_toList, Standing.view?, course.traces.current] at here
    split at here
    · exact nomatch here
    · exact here
  · rw [course.noted, List.flatMap_append, List.mem_append] at noted
    obtain earlier | later := noted
    · exact budgeted.views view (List.mem_append_right _ earlier)
    · obtain ⟨note, among, there⟩ := List.mem_flatMap.mp later
      exact outstanding view (course.traces.views quiet note among view there)

theorem play (budgeted : Budgeted budget s) (c : Conduct ε ℓ) : Budgeted budget (c.play s).2 := by
  obtain ⟨notes, quiet, course⟩ := c.play_course budgeted.reachable.sound
  exact budgeted.course course quiet (.play c budgeted.reachable)

theorem reacts (told : ℓ → Event → Conduct ε ℓ) (listener : ℓ) (event : Event)
    (s : Chronicled ε ℓ) (reported : ∀ view, event.view? = some view → view.previewLength = budget)
    (budgeted : Budgeted budget s) :
    Budgeted budget (Conduct.reactions told listener event s).2 :=
  (budgeted.told listener reported).play (told listener event)

end Budgeted

variable [DecidableEq ℓ]

/-- Sessions created with the settings, as anything may leave them that is done with them:
listeners and controllers act in any way, interpreters make any calls to the session's hook,
and programs are run. -/
inductive CreatedWith (config : Config) : Chronicled ε ℓ → Prop where
  | new (own : ε) : CreatedWith config (Session.new config ⟨own, []⟩)
  | act (c : Conduct ε ℓ) {s : Chronicled ε ℓ} :
      CreatedWith config s → CreatedWith config (c.play s).2
  | calls (told : ℓ → Event → Conduct ε ℓ) (controller : Option (Conduct ε ℓ))
      (calls : List HookCall) {s : Chronicled ε ℓ} : CreatedWith config s →
      CreatedWith config (attended (controller.map fun act s => (act.play s).2)
        (HookCall.attempt (hook (Conduct.reactions told)) calls s)).state
  | run (told : ℓ → Event → Conduct ε ℓ) (controller : Option (Conduct ε ℓ)) (tree : CallTree)
      {s : Chronicled ε ℓ} : CreatedWith config s →
      CreatedWith config (attended (controller.map fun act s => (act.play s).2)
        (tree.run (hook (Conduct.reactions told)) s)).state

theorem CreatedWith.budgeted {config : Config} {s : Chronicled ε ℓ}
    (created : CreatedWith config s) : Budgeted config.previewLength s := by
  have controls (controller : Option (Conduct ε ℓ)) (answer : Chronicled ε ℓ → Chronicled ε ℓ)
      (acts : controller.map (fun act s => (act.play s).2) = some answer) (s : Chronicled ε ℓ)
      (budgeted : Budgeted config.previewLength s) :
      Budgeted config.previewLength (answer s) := by
    obtain ⟨act, -, rfl⟩ := Option.map_eq_some_iff.mp acts
    exact budgeted.play act
  induction created with
  | new own => exact .new config own
  | act c _ ih => exact ih.play c
  | calls told controller calls _ ih =>
      exact Invariant.attended (controls controller)
        (Budgeted.invariant.attempt Budgeted.tells (Budgeted.reacts told) calls ih)
  | run told controller tree _ ih =>
      exact Invariant.attended (controls controller)
        (Budgeted.invariant.run Budgeted.tells (Budgeted.reacts told) tree ih)

end Session

/-- Whoever reads the document, the settings that a text gives have its preview budget or the
default one, with room for a character before the ellipsis, and every variable of every pause is
shown within it. -/
theorem Config.budget_reaches_every_preview (reader : Toml.Reader) {text : String}
    {config : Config} (accepted : Config.ofDocument reader.read text = .ok config) :
    Config.Budget reader.read text config.previewLength ∧
      ∀ (ε ℓ : Type) [DecidableEq ℓ] (s : Chronicled ε ℓ), Session.CreatedWith config s →
        ∀ view ∈ s.views, ∀ v, view.Offers v → v.ShownWithin config.previewLength := by
  have budget := Config.budget_of_ofDocument reader accepted
  refine ⟨budget, ?_⟩
  intro ε ℓ _ s created view member v offers
  have length : v.previewLength = config.previewLength :=
    offers.previewLength.trans (created.budgeted.views view member)
  rw [← length]
  exact Variable.shownWithin (length ▸ budget.enough)

/-- An interpreter pauses where a value is too long for a budget of five characters and a name
is unbound. -/
theorem Config.budget_of_five_reaches_previews :
    let text := "[debug]\npreview_length = 5\n"
    let config : Config := { previewLength := 5 }
    let context : Context := { scopes := [⟨[("x", some (.string "äöü€")), ("y", none)]⟩] }
    let main : Expression := { function := some ⟨some "main", none⟩, source := none }
    let calls : List HookCall := [.start main, .capture context, .enter main none 1]
    let into : Conduct Unit Nat := .use (.stepping (.setMode .into)) (.done none)
    let told : Nat → Event → Conduct Unit Nat := fun _ _ => .done none
    let s : Chronicled Unit Nat := (into.play (Session.new config ⟨(), []⟩)).2
    let paused : Chronicled Unit Nat :=
      (Session.attended none
        (HookCall.attempt (Session.hook (Conduct.reactions told)) calls s)).state
    let view : Snapshot := { expression := some main, context, depth := 1, previewLength := 5 }
    Config.ofText text = .ok config ∧ Session.CreatedWith config paused ∧ view ∈ paused.views ∧
      (∀ v ∈ view.visibleVariables, v.ShownWithin 5) ∧
      view.visibleVariables.map Variable.render = ["x: String = 'ä...", "y: Nil = nil"] := by
  intro text config context main calls into told s paused view
  have document : Toml.read text =
      .ok [("debug", .table [("preview_length", .integer 5)])] := by decide +kernel
  have accepted : Config.ofText text = .ok config := by
    rw [Config.ofText, Config.ofDocument, document]
    rfl
  have created : Session.CreatedWith config paused := .calls told none calls (.act into (.new ()))
  have member : view ∈ paused.views := by decide +kernel
  obtain ⟨-, shown⟩ := Config.budget_reaches_every_preview Toml.reader accepted
  refine ⟨accepted, created, member, fun v visible => ?_, by decide +kernel⟩
  exact shown Unit Nat paused created view member v (.inl visible)

end Debugger
