import Stagecraft.Proofs.Stage.Listening
import Stagecraft.Proofs.Stage.Unbroken
/-!
# What a machine leaves behind

A machine that no one holds any more removes every listener whose id it has kept.  What is left of it then are the
listeners whose ids it had lost, and on a host that spares the calls by which listeners come and go there are none.
-/
namespace Stagecraft

namespace Stage

/-- Every machine in use is held by someone, and one that is let go forgets its listeners at once and is closed soon. -/
structure Tended (c : Config) : Prop where
  keys : c.stage.cast.keys.Nodup
  live : ∀ m mc, c.stage.machine? m = some mc → mc.life = .live →
    m ∈ c.stage.cast.values ∨ Task.release (.machine m) ∈ c.agenda
  closing : ∀ m mc, c.stage.machine? m = some mc → mc.life = .closing → Task.closed m ∈ c.agenda
  unbound : ∀ m mc, c.stage.machine? m = some mc → mc.life ≠ .live → mc.bindings = [] ∧ mc.triggers = []

section
variable {s s' : Stage} {t : Task} {ts rest : List Task}

/-- What is on an agenda and is not of the kind of the first task comes later. -/
theorem mem_of_kind {t' : Task} (h : t' ∈ t :: rest) (hkind : (t'.kind == t.kind) = false) : t' ∈ rest :=
  (List.mem_cons.1 h).resolve_left fun heq => by simp [heq] at hkind

/-- A task that neither lets a machine go nor closes one, and changes no life. -/
theorem Tended.of_lives (h : Tended ⟨s, t :: rest⟩) (hrelease : ∀ m, t ≠ .release (.machine m))
    (hclosed : ∀ m, t ≠ .closed m) (hcast : s'.cast = s.cast)
    (hm : ∀ m c', s'.machine? m = some c' → ∃ c, s.machine? m = some c ∧ c'.life = c.life ∧
      (c.life ≠ .live → c'.bindings = c.bindings ∧ c'.triggers = c.triggers)) : Tended ⟨s', ts ++ rest⟩ where
  keys := by
    simp only [hcast]
    exact h.keys
  live m c' hc' hlife := by
    obtain ⟨c, hc, hlife', -⟩ := hm m c' hc'
    simp only [hcast]
    refine (h.live m c hc (hlife' ▸ hlife)).imp_right fun hmem => List.mem_append_right _ ?_
    exact (List.mem_cons.1 hmem).resolve_left fun heq => hrelease m heq.symm
  closing m c' hc' hlife := by
    obtain ⟨c, hc, hlife', -⟩ := hm m c' hc'
    refine List.mem_append_right _ ?_
    exact (List.mem_cons.1 (h.closing m c hc (hlife' ▸ hlife))).resolve_left fun heq => hclosed m heq.symm
  unbound m c' hc' hlife := by
    obtain ⟨c, hc, hlife', hsame⟩ := hm m c' hc'
    have hlife : c.life ≠ .live := hlife' ▸ hlife
    rw [(hsame hlife).1, (hsame hlife).2]
    exact h.unbound m c hc hlife

/-- A task on a machine in use. -/
theorem Tended.of_mapMachine (h : Tended ⟨s, t :: rest⟩) (hheld : Held ⟨s, t :: rest⟩) {m : Nat} {f : Machine → Machine}
    (hm : t.machine? = some m) (hcast : s'.cast = s.cast) (hmachines : s'.machines = (s.mapMachine m f).machines)
    (hf : ∀ c, (f c).life = c.life) : Tended ⟨s', ts ++ rest⟩ := by
  refine h.of_lives (fun n hn => by rw [hn] at hm; cases hm) (fun n hn => by rw [hn] at hm; cases hm) hcast
    fun n c' hc' => ?_
  rw [machine?, hmachines] at hc'
  rcases machine?_mapMachine_eq_some hc' with ⟨-, hc⟩ | ⟨c, rfl, hc, rfl⟩
  · exact ⟨c', hc, rfl, fun _ => ⟨rfl, rfl⟩⟩
  · refine ⟨c, hc, hf c, fun hlife => absurd ?_ hlife⟩
    have hlive := isLive_of_held hheld hm
    rw [isLive_of_machine? hc] at hlive
    exact of_decide_eq_true hlive

theorem Tended.of_machines (h : Tended ⟨s, t :: rest⟩) (hrelease : ∀ m, t ≠ .release (.machine m))
    (hclosed : ∀ m, t ≠ .closed m) (hcast : s'.cast = s.cast)
    (hm : s'.machines.map Machine.wiring = s.machines.map Machine.wiring) : Tended ⟨s', ts ++ rest⟩ := by
  refine h.of_lives hrelease hclosed hcast fun m c' hc' => ?_
  obtain ⟨c, hc, hw⟩ := exists_machine?_of_wiring hm.symm hc'
  refine ⟨c, hc, (congrArg Machine.life hw :).symm, fun _ => ⟨(congrArg Machine.bindings hw :).symm, ?_⟩⟩
  exact (congrArg Machine.triggers hw :).symm

/-- A task on a machine that changes nothing of it. -/
theorem Tended.of_work (h : Tended ⟨s, t :: rest⟩) {m : Nat} (hm : t.machine? = some m) (hcast : s'.cast = s.cast)
    (hmachines : s'.machines = s.machines) : Tended ⟨s', ts ++ rest⟩ :=
  h.of_machines (fun n hn => by rw [hn] at hm; cases hm) (fun n hn => by rw [hn] at hm; cases hm) hcast
    (congrArg _ hmachines)

theorem tended_drop {name : String} (h : Tended ⟨s, .cue (.drop name) :: rest⟩) :
    Tended (.after s (.cue (.drop name)) rest) := by
  simp only [Config.after, Task.carryOut, follow]
  split
  · rename_i m hm
    refine ⟨Registry.nodup_keys_erase h.keys name, fun n c hc hlife => ?_, fun n c hc hlife => ?_, h.unbound⟩
    · rcases h.live n c hc hlife with hmem | hmem
      · refine (Registry.mem_values_erase h.keys hmem name).imp_right fun hn => ?_
        rw [Option.some.inj (hm.symm.trans hn)]
        exact List.mem_cons_self
      · exact .inr (List.mem_append_right _ (mem_of_kind hmem rfl))
    · exact List.mem_append_right _ (mem_of_kind (h.closing n c hc hlife) rfl)
  · exact show Tended ⟨_, [] ++ rest⟩ from .of_machines h (by simp) (by simp) rfl rfl

theorem tended_build {name : String} {el : ElementId} {settings : Settings} {hooked : Bool}
    {states : List Declaration} (h : Tended ⟨s, .cue (.build name el settings hooked states) :: rest⟩) :
    Tended (.after s (.cue (.build name el settings hooked states)) rest) := by
  simp only [Config.after, Task.carryOut, follow, build]
  split
  · have hu := undisturbed_declared el states s
    have hold : ∀ m c, (states.foldl (fun s d => s.notifyAll (d.notices el)) s).machine? m = some c →
        s.machine? m = some c := fun m c hc => by rw [← hu.machine? m, hc]
    have hcast := hu.cast
    generalize states.foldl (fun s d => s.notifyAll (d.notices el)) s = s' at hold hcast
    -- a machine on the stage is the new one, which has nothing yet, or was there before
    have hm : ∀ m c, (s'.addMachine el settings hooked (states.foldl declare [])).machine? m = some c →
        (m = s'.machines.length ∧ c.life = .live) ∨ s.machine? m = some c := by
      intro m c hc
      rw [machine?_addMachine] at hc
      split at hc
      · rename_i hm
        cases hc
        exact .inl ⟨hm, rfl⟩
      · exact .inr (hold m c hc)
    have hkeys : s'.cast.keys.Nodup := hcast ▸ h.keys
    refine ⟨Registry.nodup_keys_put hkeys name _, fun m c hc hlife => ?_, fun m c hc hlife => ?_,
      fun m c hc hlife => ?_⟩
    · have hval : ∀ {a}, a ∈ (s'.cast.erase name).values ∨ a = s'.machines.length →
          a ∈ (s'.cast.put name s'.machines.length).values := fun ha => by
        rw [Registry.values_put, List.mem_append, List.mem_singleton]
        exact ha
      rcases hm m c hc with ⟨hm, -⟩ | hc
      · exact .inl (hval (.inr hm))
      · rcases h.live m c hc hlife with hmem | hmem
        · rw [← hcast] at hmem
          rcases Registry.mem_values_erase hkeys hmem name with hmem | hget
          · exact .inl (hval (.inl hmem))
          · refine .inr (List.mem_append_left _ (List.mem_append_left _ ?_))
            refine List.mem_map.2 ⟨m, Option.mem_toList.2 ?_, rfl⟩
            exact hget
        · exact .inr (List.mem_append_right _ (mem_of_kind hmem rfl))
    · rcases hm m c hc with ⟨-, hlive⟩ | hc
      · rw [hlive] at hlife
        cases hlife
      · exact List.mem_append_right _ (mem_of_kind (h.closing m c hc hlife) rfl)
    · rcases hm m c hc with ⟨-, hlive⟩ | hc
      · exact absurd hlive hlife
      · exact h.unbound m c hc hlife
  · exact show Tended ⟨_, [] ++ rest⟩ from .of_machines h (by simp) (by simp) rfl rfl

theorem tended_release {m : Nat} (h : Tended ⟨s, .release (.machine m) :: rest⟩) :
    Tended (.after s (.release (.machine m)) rest) := by
  simp only [Config.after, Task.carryOut, release]
  -- a hold that is given up is not the last one, or the machine is not in use
  have hstay : (∀ c, s.machine? m = some c → c.life = .live → s.holdsMachine rest m = true) → Tended ⟨s, rest⟩ := by
    intro hholds
    refine ⟨h.keys, fun n c hc hlife => ?_, fun n c hc hlife => ?_, h.unbound⟩
    · rcases h.live n c hc hlife with hmem | hmem
      · exact .inl hmem
      · rcases List.mem_cons.1 hmem with heq | hmem
        · cases heq
          have := hholds c hc hlife
          rw [holdsMachine, Bool.or_eq_true, List.contains_iff_mem] at this
          refine this.imp_right fun hany => ?_
          obtain ⟨t, ht, hholds⟩ := List.any_eq_true.1 hany
          split at hholds
          · rename_i hold
            rw [← of_decide_eq_true hholds]
            exact ht
          · cases hholds
        · exact .inr hmem
    · exact mem_of_kind (h.closing n c hc hlife) rfl
  cases hc : s.machine? m with
  | none => exact hstay fun c hc' => by rw [hc] at hc'; cases hc'
  | some c =>
    simp only
    split
    · rename_i hgone
      rw [Bool.and_eq_true, decide_eq_true_iff, Bool.not_eq_true'] at hgone
      refine ⟨h.keys, fun n c' hc' hlife => ?_, fun n c' hc' hlife => ?_, fun n c' hc' hlife => ?_⟩
      · rcases machine?_mapMachine_eq_some hc' with ⟨hn, hc'⟩ | ⟨c'', rfl, hc'', rfl⟩
        · refine (h.live n c' hc' hlife).imp_right fun hmem => List.mem_append_right _ ?_
          refine (List.mem_cons.1 hmem).resolve_left fun heq => hn ?_
          cases heq
          rfl
        · cases hlife
      · rcases machine?_mapMachine_eq_some hc' with ⟨hn, hc'⟩ | ⟨c'', rfl, hc'', rfl⟩
        · exact List.mem_append_right _ (mem_of_kind (h.closing n c' hc' hlife) rfl)
        · exact List.mem_append_left _ (List.mem_append_right _ List.mem_cons_self)
      · rcases machine?_mapMachine_eq_some hc' with ⟨hn, hc'⟩ | ⟨c'', rfl, hc'', rfl⟩
        · exact h.unbound n c' hc' hlife
        · exact ⟨rfl, rfl⟩
    · rename_i hheld
      refine hstay fun c' hc' hlife => ?_
      obtain rfl := Option.some.inj (hc.symm.trans hc')
      simpa [hlife] using hheld

theorem tended_closed {m : Nat} (h : Tended ⟨s, .closed m :: rest⟩) (hheld : Held ⟨s, .closed m :: rest⟩) :
    Tended (.after s (.closed m) rest) := by
  obtain ⟨c, hc, hlife⟩ := hheld.closing m List.mem_cons_self
  simp only [Config.after, Task.carryOut, closed, show s.machine? m = some c from hc]
  refine ⟨h.keys, fun n c' hc' hlife => ?_, fun n c' hc' hlife => ?_, fun n c' hc' hlife' => ?_⟩
  · rcases machine?_mapMachine_eq_some hc' with ⟨hn, hc'⟩ | ⟨c'', rfl, hc'', rfl⟩
    · exact (h.live n c' hc' hlife).imp_right fun hmem => List.mem_append_right _ (mem_of_kind hmem rfl)
    · cases hlife
  · rcases machine?_mapMachine_eq_some hc' with ⟨hn, hc'⟩ | ⟨c'', rfl, hc'', rfl⟩
    · refine List.mem_append_right _ ((List.mem_cons.1 (h.closing n c' hc' hlife)).resolve_left fun heq => hn ?_)
      cases heq
      rfl
    · cases hlife
  · rcases machine?_mapMachine_eq_some hc' with ⟨hn, hc'⟩ | ⟨c'', rfl, hc'', rfl⟩
    · exact h.unbound n c' hc' hlife'
    · refine h.unbound n c'' hc'' ?_
      obtain rfl := Option.some.inj (hc.symm.trans hc'')
      simp [hlife]

theorem tended_after (h : Tended ⟨s, t :: rest⟩) (hheld : Held ⟨s, t :: rest⟩) : Tended (.after s t rest) := by
  have hw := (within_carryOut s rest t).touched
  by_cases hplain : .wiring ∉ t.touches ∧ .cast ∉ t.touches
  · refine h.of_machines (fun m hm => ?_) (fun m hm => ?_) (hw.agree .cast hplain.2) (hw.agree .wiring hplain.1)
    · rw [hm] at hplain
      exact hplain.1 List.mem_cons_self
    · rw [hm] at hplain
      exact hplain.1 List.mem_cons_self
  · cases t with
    | cue c =>
      cases c with
      | build name el settings hooked states => exact tended_build h
      | drop name => exact tended_drop h
      | _ => simp [Task.touches, Cue.touches] at hplain
    | release hold =>
      cases hold with
      | machine m => exact tended_release h
      | queue => simp [Task.touches] at hplain
      | host => simp [Task.touches] at hplain
    | closed m => exact tended_closed h hheld
    | transition m state =>
      simp only [Config.after, Task.carryOut, transition]
      split
      · exact h.of_work rfl rfl rfl
      · split
        · exact h.of_work rfl rfl rfl
        · exact h.of_mapMachine hheld rfl rfl rfl fun _ => rfl
    | arrive m state again =>
      have hstage : (s.arrive m state again).1.cast = s.cast ∧ (s.arrive m state again).1.machines =
          (s.mapMachine m fun c => { c with current := if again then c.current else some state }).machines := by
        simp only [arrive]
        split
        · exact ⟨rfl, rfl⟩
        · split <;> exact ⟨rfl, rfl⟩
      exact h.of_mapMachine hheld rfl hstage.1 hstage.2 fun _ => rfl
    | bound m k id => exact h.of_mapMachine hheld (f := (·.bind k id)) rfl rfl rfl fun c => by rw [c.bind_eq]
    | jump m slot =>
      simp only [Config.after, Task.carryOut, jump]
      split
      · exact h.of_work rfl rfl rfl
      · split
        · exact h.of_work rfl rfl rfl
        · split
          · exact h.of_work rfl rfl rfl
          · split
            · exact h.of_mapMachine hheld rfl rfl rfl fun _ => rfl
            · exact h.of_work rfl rfl rfl
    | watched m el id => exact h.of_mapMachine hheld (m := m) rfl rfl rfl fun _ => rfl
    | _ => simp [Task.touches] at hplain

/-- Whatever works on a machine is on the agenda before a hold on it. -/
theorem AllBacked.release_mem {m : Nat} : ∀ {agenda : List Task}, AllBacked s agenda →
    (∃ t ∈ agenda, t.machine? = some m) → Task.release (.machine m) ∈ agenda
  | [], _, ⟨_, ht, _⟩ => nomatch ht
  | t :: rest, ⟨hb, hrest⟩, ⟨t', ht', hm⟩ => by
    rcases List.mem_cons.1 ht' with rfl | ht'
    · exact List.mem_cons_of_mem _ (hb.machine m hm)
    · exact List.mem_cons_of_mem _ (hrest.release_mem ⟨t', ht', hm⟩)

end

end Stage

open Stage

theorem Course.tended {manners : Manners} {c : Config} {past : List Config} (h : Course manners (c :: past)) :
    Tended c := by
  generalize hcs : c :: past = cs at h
  induction h generalizing c past with
  | opened =>
    cases hcs
    have hnone : ∀ m c, (Stage.opened manners).machine? m ≠ some c := fun m c h => by simp [Stage.opened, machine?] at h
    exact ⟨List.nodup_nil, fun m c hc => absurd hc (hnone m c), fun m c hc => absurd hc (hnone m c),
      fun m c hc => absurd hc (hnone m c)⟩
  | cleared h ih =>
    cases hcs
    have h := ih rfl
    exact ⟨h.keys, h.live, h.closing, h.unbound⟩
  | called cue h ih =>
    cases hcs
    have h := ih rfl
    exact ⟨h.keys, fun m c hc hlife => (h.live m c hc hlife).imp_right (List.mem_cons_of_mem _),
      fun m c hc hlife => List.mem_cons_of_mem _ (h.closing m c hc hlife), h.unbound⟩
  | @stepped b _ past h hstep ih =>
    cases hcs
    obtain ⟨s, agenda⟩ := b
    cases agenda with
    | nil => cases hstep
    | cons t rest =>
      rw [Config.step?_cons, Option.some.injEq] at hstep
      rw [← hstep]
      exact tended_after (ih rfl) h.held

/-- A listener that calls a machine is lost if the machine knows no listener and nothing is going to be done on it. -/
theorem Stage.Tracked.lost_of_gone {s : Stage} {agenda : List Task} {lost : Nat → Nat → Prop}
    {l : Listener ListenerCall} {call : ListenerCall} (h : Tracked s agenda lost l call) {m : Nat} {machine : Machine}
    (hm : s.machine? m = some machine) (hcall : call.machine? = some m) (hbindings : machine.bindings = [])
    (htriggers : machine.triggers = []) (hidle : ∀ t ∈ agenda, t.machine? ≠ some m) (hclosed : Task.closed m ∉ agenda) :
    (∃ slot, call = .react m slot) ∧ lost m l.id := by
  have hnot : ¬ Detaching m l agenda := by
    rintro ⟨before, after, heq, hafter⟩
    have hsub : ∀ t ∈ after, t ∈ agenda := fun t ht => heq ▸ List.mem_append_right _ (List.mem_cons_of_mem _ ht)
    rcases hafter with hafter | ⟨t, ht, hm⟩
    · exact hclosed (hsub _ hafter)
    · exact hidle t (hsub t ht) hm
  cases h with
  | outside label script => cases hcall
  | @lost n slot hlost =>
    cases hcall
    exact ⟨⟨slot, rfl⟩, hlost⟩
  | bound hc hel hid =>
    cases hcall
    obtain rfl := Option.some.inj (hm.symm.trans hc)
    rw [Machine.bound, hbindings] at hid
    cases hid
  | binding hc hel hmem =>
    cases hcall
    exact absurd rfl (hidle _ hmem)
  | unbinding hd =>
    cases hcall
    exact absurd hd hnot
  | triggered hc hid =>
    cases hcall
    obtain rfl := Option.some.inj (hm.symm.trans hc)
    rw [htriggers] at hid
    cases hid
  | watching hc hmem =>
    cases hcall
    exact absurd rfl (hidle _ hmem)
  | unwatching hd =>
    cases hcall
    exact absurd hd hnot

/-- **What is left on the page of a machine that was let go.**  Once a machine has no name any more, no call of it is
under way and it is closed, the only listeners that still call it run reactions of it, and each of them was overwritten:
the machine had noted it for a place, and then noted another listener for the same place.  On a host that dispatches
nothing from inside the calls by which listeners come and go, no listener calls the machine. -/
theorem dropped_machine_leaves_what_it_overwrote {manners : Manners} {c : Config} {past : List Config}
    (h : Course manners (c :: past)) {m : Nat} {machine : Machine} (hm : c.stage.machine? m = some machine)
    (hname : m ∉ c.stage.cast.values) (hcalls : Task.release (.machine m) ∉ c.agenda)
    (hclosed : Task.closed m ∉ c.agenda) :
    (∀ l ∈ c.stage.page.listeners, l.call.machine? = some m →
      (∃ slot, l.call = .react m slot) ∧ ∃ b ∈ past, b.overwrites m l.id) ∧
    (manners.sparesListeners = true → ∀ l ∈ c.stage.page.listeners, l.call.machine? ≠ some m) := by
  have ht := h.tended
  have hlife : machine.life ≠ .live := fun hlive => (ht.live m machine hm hlive).elim hname hcalls
  obtain ⟨hbindings, htriggers⟩ := ht.unbound m machine hm hlife
  have hidle : ∀ t ∈ c.agenda, t.machine? ≠ some m := fun t ht hm =>
    hcalls (h.held.backed.release_mem ⟨t, ht, hm⟩)
  have hleft : ∀ l ∈ c.stage.page.listeners, l.call.machine? = some m →
      (∃ slot, l.call = .react m slot) ∧ ∃ b ∈ past, b.overwrites m l.id := fun l hl hlm =>
    (h.tracked l hl).lost_of_gone hm hlm hbindings htriggers hidle hclosed
  refine ⟨hleft, fun hs l hl hlm => ?_⟩
  obtain ⟨-, b, hb, hover⟩ := hleft l hl hlm
  obtain ⟨later, past', rfl⟩ := List.append_of_mem hb
  exact (Course.unbroken hs (Course.drop (c :: later) h)).2.not_overwrites m l.id hover

/-- A machine that a click leads from its first state to a second one, which waits for another event. -/
def turnstile : Cue :=
  .build "m" ⟨1⟩ {} false [.ready ⟨"default", [{ on := .event "click", goto := some "b" }], none⟩,
    .ready ⟨"b", [{ on := .event "hover" }], none⟩]

/-- The machine is started and dropped again. -/
def passage (manners : Manners) : List Config :=
  [turnstile, .start "m" false, .drop "m"].foldl (Course.play 60) [⟨.opened manners, []⟩]

theorem passage_course (manners : Manners) : Course manners (passage manners) := Course.plays manners 60 _ .opened

/-- A host that answers every new listener for a click with a click makes the machine overwrite its listener for the
second event, which stays on the page; a host that clicks when styles are flushed leaves none. -/
theorem dropped_machine_leaves_what_it_overwrote_turnstile :
    (∃ c past, passage { reflexes := [⟨.addListener, some "click", "click"⟩] } = c :: past ∧
      ∃ l ∈ c.stage.page.listeners, l.call.machine? = some 0 ∧ ∃ b ∈ past, b.overwrites 0 l.id) ∧
    ∃ c past, passage { reflexes := [⟨.flush, none, "click"⟩] } = c :: past ∧
      ∀ l ∈ c.stage.page.listeners, l.call.machine? ≠ some 0 := by
  constructor
  · obtain ⟨c, past, machine, l, heq, hm, hname, hagenda, hl, hlm⟩ : ∃ c past machine l,
        passage { reflexes := [⟨.addListener, some "click", "click"⟩] } = c :: past ∧
        c.stage.machine? 0 = some machine ∧ 0 ∉ c.stage.cast.values ∧ c.agenda = [] ∧
        c.stage.page.listeners = [l] ∧ l.call.machine? = some 0 :=
      ⟨_, _, _, _, rfl, rfl, by decide, rfl, rfl, rfl⟩
    have hcourse : Course _ (c :: past) := heq ▸ passage_course _
    obtain ⟨hleft, -⟩ :=
      dropped_machine_leaves_what_it_overwrote hcourse hm hname (by simp [hagenda]) (by simp [hagenda])
    have hl : l ∈ c.stage.page.listeners := hl ▸ List.mem_cons_self
    exact ⟨c, past, heq, l, hl, hlm, (hleft l hl hlm).2⟩
  · obtain ⟨c, past, machine, heq, hm, hname, hagenda⟩ : ∃ c past machine,
        passage { reflexes := [⟨.flush, none, "click"⟩] } = c :: past ∧
        c.stage.machine? 0 = some machine ∧ 0 ∉ c.stage.cast.values ∧ c.agenda = [] :=
      ⟨_, _, _, rfl, rfl, by decide, rfl⟩
    have hcourse : Course _ (c :: past) := heq ▸ passage_course _
    exact ⟨c, past, heq, (dropped_machine_leaves_what_it_overwrote hcourse hm hname (by simp [hagenda])
      (by simp [hagenda])).2 rfl⟩

end Stagecraft
