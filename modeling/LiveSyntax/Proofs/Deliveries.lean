import LiveSyntax.Proofs.Moments

/-!
# Who is called, and by what

The reports of a run form a forest: an action has the calls that it brought about, and a call has the
actions of its observer. A `Spot` is any action of that forest, however deep in rounds it lies, with what
had happened before it. For each spot there is the moment of the run at which the action was next.

Who is to be called at a spot can be said without any state. `Roster` keeps the observers that joined and
did not leave, and `Report.due` calls all of them, in that order, if the action starts a round. A host
calls exactly those that are due.

## Main definitions

- `Spot`, `Report.spotsAll`: the actions of a run at every depth, with their pasts.
- `Roster`: the observers that are registered, read off a past.
- `Host.Tells`: which actions start a round, and about which buffer.
- `Report.due`, `Report.deliveriesAll`: the calls that should be made, and those that were made.

## Main results

- `Host.Lawful.exists_foresees`: every spot of a run has its moment.
- `Host.Lawful.calls_eq_due`: the calls of an action are those that are due.
- `Host.Lawful.deliveries_perm_due`: the same over a whole run.
-/

namespace LiveSyntax

variable {σ α β γ : Type}

/-! ### Spots -/

/-- An action of a run, with what had happened before it. -/
structure Spot (α β γ : Type) where
  past : List (Action α × Outcome β)
  report : Report α β γ

/-- What the spot adds to the past. -/
def Spot.entry (spot : Spot α β γ) : Action α × Outcome β :=
  (spot.report.action, spot.report.outcome)

namespace Call

def observer : Call α β γ → Nat
  | .mk observer _ _ _ _ => observer

def buffer : Call α β γ → BufferId
  | .mk _ _ buffer _ _ => buffer

def seen : Call α β γ → γ
  | .mk _ _ _ seen _ => seen

def reports : Call α β γ → List (Report α β γ)
  | .mk _ _ _ _ reports => reports

/-- Who was called, and about which buffer. -/
def address (c : Call α β γ) : Nat × BufferId :=
  (c.observer, c.buffer)

end Call

namespace Report

mutual

/-- The actions of a list of reports, with those of all calls that they brought about. -/
def spotsAll (past : List (Action α × Outcome β)) : List (Report α β γ) → List (Spot α β γ)
  | [] => []
  | .mk action outcome calls :: rest =>
    ⟨past, .mk action outcome calls⟩ :: (spotsCalls (past ++ [(action, outcome)]) calls ++
      spotsAll (past ++ (action, outcome) :: timelineCalls calls) rest)

def spotsCalls (past : List (Action α × Outcome β)) : List (Call α β γ) → List (Spot α β γ)
  | [] => []
  | .mk _ _ _ _ reports :: rest =>
    spotsAll past reports ++ spotsCalls (past ++ timelineAll reports) rest

end

theorem spotsAll_singleton (past : List (Action α × Outcome β)) (action : Action α)
    (outcome : Outcome β) (calls : List (Call α β γ)) :
    spotsAll past [.mk action outcome calls] =
      ⟨past, .mk action outcome calls⟩ :: spotsCalls (past ++ [(action, outcome)]) calls := by
  simp [spotsAll]

theorem spotsAll_cons (past : List (Action α × Outcome β)) (report : Report α β γ)
    (rest : List (Report α β γ)) :
    spotsAll past (report :: rest) =
      spotsAll past [report] ++ spotsAll (past ++ timelineAll [report]) rest := by
  cases report with
  | mk action outcome calls => simp [spotsAll, timelineAll]

end Report

namespace Host

variable {h : Host σ α β γ}

/-- At this moment of a run, the action of the spot is next. -/
structure Moment.Foresees (m : h.Moment) (spot : Spot α β γ) : Prop where
  past : m.past = spot.past
  next : ∃ rest tasks, m.tasks = .acting (spot.report.action :: rest) :: tasks
  acts : ∃ t, h.Acts m.state spot.report.action t spot.report

mutual

theorem Acts.exists_foresees {s t : σ} {action : Action α} {report : Report α β γ}
    (hacts : h.Acts s action t report) (past : List (Action α × Outcome β)) (rest : List (Action α))
    (tasks : List h.Task) {spot : Spot α β γ} (hspot : spot ∈ Report.spotsAll past [report]) :
    ∃ m, Relation.ReflTransGen Moment.Next
      (⟨s, past, .acting (action :: rest) :: tasks⟩ : h.Moment) m ∧ m.Foresees spot := by
  match hacts with
  | .subscribe joined =>
    obtain rfl : spot = _ := by simpa [Report.spotsAll_singleton, Report.spotsCalls] using hspot
    exact ⟨_, .refl, rfl, ⟨rest, tasks, rfl⟩, _, .subscribe joined⟩
  | .unsubscribe left =>
    obtain rfl : spot = _ := by simpa [Report.spotsAll_singleton, Report.spotsCalls] using hspot
    exact ⟨_, .refl, rfl, ⟨rest, tasks, rfl⟩, _, .unsubscribe left⟩
  | .finished effect =>
    obtain rfl : spot = _ := by simpa [Report.spotsAll_singleton, Report.spotsCalls] using hspot
    exact ⟨_, .refl, rfl, ⟨rest, tasks, rfl⟩, _, .finished effect⟩
  | .announced effect round closed =>
    rw [Report.spotsAll_singleton, List.mem_cons] at hspot
    rcases hspot with rfl | hinside
    · exact ⟨_, .refl, rfl, ⟨rest, tasks, rfl⟩, _, .announced effect round closed⟩
    · -- The spot lies in a call of the round, so the round is opened on the way to it.
      obtain ⟨m, hpath, hm⟩ := round.exists_foresees ⟨_, _, _, _, _, _, effect⟩ _
        (.acting rest :: tasks) hinside
      exact ⟨m, .head (.announced ⟨_, _, _, _, _, _, effect⟩) hpath, hm⟩

theorem ActsAll.exists_foresees {s t : σ} {actions : List (Action α)}
    {reports : List (Report α β γ)} (hacts : h.ActsAll s actions t reports)
    (past : List (Action α × Outcome β)) (tasks : List h.Task) {spot : Spot α β γ}
    (hspot : spot ∈ Report.spotsAll past reports) :
    ∃ m, Relation.ReflTransGen Moment.Next
      (⟨s, past, .acting actions :: tasks⟩ : h.Moment) m ∧ m.Foresees spot := by
  match hacts with
  | .nil _ => simp [Report.spotsAll] at hspot
  | .cons first rest =>
    rw [Report.spotsAll_cons, List.mem_append] at hspot
    rcases hspot with hfirst | hrest
    · exact first.exists_foresees past _ tasks hfirst
    · obtain ⟨m, hpath, hm⟩ := rest.exists_foresees _ tasks hrest
      exact ⟨m, (first.reaches past _ tasks).trans hpath, hm⟩

theorem Calls.exists_foresees {buffer : BufferId} {s t : σ} {ids : List Nat}
    {calls : List (Call α β γ)} (hcalls : h.Calls buffer s ids t calls) (round : h.Round)
    (past : List (Action α × Outcome β)) (tasks : List h.Task) {spot : Spot α β γ}
    (hspot : spot ∈ Report.spotsCalls past calls) :
    ∃ m, Relation.ReflTransGen Moment.Next
      (⟨s, past, .calling round ids :: tasks⟩ : h.Moment) m ∧ m.Foresees spot := by
  match hcalls with
  | .nil _ _ => simp [Report.spotsCalls] at hspot
  | .cons acts rest =>
    rw [Report.spotsCalls, List.mem_append] at hspot
    rcases hspot with hfirst | hrest
    · obtain ⟨m, hpath, hm⟩ := acts.exists_foresees past _ hfirst
      exact ⟨m, .head .call hpath, hm⟩
    · obtain ⟨m, hpath, hm⟩ := rest.exists_foresees round _ tasks hrest
      exact ⟨m, .head .call ((acts.reaches past _).trans hpath), hm⟩

end

/-- **Every spot has its moment**: the run comes to it with the past of the spot, and the action is next. -/
theorem Lawful.exists_foresees (hlawful : h.Lawful) {s : σ} {actions : List (Action α)}
    {spot : Spot α β γ} (hspot : spot ∈ Report.spotsAll [] (h.run s actions).2) :
    ∃ m, h.Reaches s actions m ∧ m.Foresees spot :=
  (hlawful.actsAll_run s actions).exists_foresees [] [] hspot

end Host

/-! ### Rosters -/

/-- The numbers of the registered observers, in the order in which they joined. -/
abbrev Roster := List Nat

namespace Roster

def note (r : Roster) : Action α × Outcome β → Roster
  | (_, .subscribed id) => r ++ [id]
  | (.unsubscribe id, _) => r.filter (· != id)
  | _ => r

/-- Who is registered after some actions, if nobody was at first. -/
def ofPast (past : List (Action α × Outcome β)) : Roster :=
  past.foldl note []

end Roster

namespace Notifier

/-- A notifier and a roster agree. Numbers are given in increasing order, so the roster is sorted. -/
structure Keeps (n : Notifier α) (r : Roster) : Prop where
  registered : n.registered = r
  issued : ∀ id ∈ r, id < n.observers.size
  increasing : r.Pairwise (· < ·)

variable {n : Notifier α} {r : Roster}

theorem keeps_empty : (empty : Notifier α).Keeps [] :=
  ⟨rfl, by simp, .nil⟩

theorem Keeps.subscribe (hk : n.Keeps r) (observer : Observer α) :
    (n.subscribe observer).1.Keeps (r ++ [(n.subscribe observer).2]) where
  registered := by simp [Notifier.subscribe, hk.registered]
  issued := by
    intro id hid
    simp only [Notifier.subscribe, Array.size_push]
    rcases List.mem_append.mp hid with hold | hnew
    · exact Nat.lt_succ_of_lt (hk.issued id hold)
    · rw [List.mem_singleton.mp hnew]
      exact Nat.lt_succ_self _
  increasing := by
    refine List.pairwise_append.mpr ⟨hk.increasing, by simp, fun id hid new hnew => ?_⟩
    rw [List.mem_singleton.mp hnew]
    exact hk.issued id hid

theorem Keeps.unsubscribe (hk : n.Keeps r) (id : Nat) :
    (n.unsubscribe id).1.Keeps (r.filter (· != id)) := by
  have hissued : ∀ other ∈ r.filter (· != id), other < n.observers.size :=
    fun other hother => hk.issued other (List.mem_filter.mp hother).1
  unfold Notifier.unsubscribe
  split
  · exact ⟨by simp [hk.registered], hissued, hk.increasing.filter _⟩
  · next hnever =>
    -- A number that was never given is not in the roster.
    have hsame : r.filter (· != id) = r := by
      refine List.filter_eq_self.mpr fun other hother => ?_
      have hlt := hk.issued other hother
      simp only [isIssued, decide_eq_true_eq] at hnever
      simp only [bne_iff_ne]
      omega
    rw [hsame] at hissued ⊢
    exact ⟨hk.registered, hissued, hk.increasing⟩

theorem Keeps.takeScript (hk : n.Keeps r) (id : Nat) : (n.takeScript id).1.Keeps r := by
  unfold Notifier.takeScript
  split
  · exact hk
  · split
    · exact hk
    · exact ⟨hk.registered, by simpa using hk.issued, hk.increasing⟩

end Notifier

namespace Host

variable {h : Host σ α β γ}

/-- Every step of a lawful host, at every depth of rounds, keeps the roster. -/
theorem Lawful.follows_roster (hlawful : h.Lawful) :
    h.Follows Roster.note fun s r => (h.notifier s).Keeps r where
  subscribe := by
    intro s r name script n id hjoined hk
    have hkeeps := hk.subscribe ⟨name, script⟩
    rw [hjoined] at hkeeps
    rwa [hlawful.notifier_withNotifier]
  unsubscribe := by
    intro s r id n wasRegistered hleft hk
    have hkeeps := hk.unsubscribe id
    rw [hleft] at hkeeps
    rwa [hlawful.notifier_withNotifier]
  take hk := by
    rw [hlawful.notifier_withNotifier]
    exact hk.takeScript _
  finished heffect hk := by
    rw [hlawful.finished heffect]
    exact hk
  opening heffect hk := by
    rw [(hlawful.announced heffect).1]
    exact hk
  close heffect hk := by
    rw [(hlawful.announced heffect).2]
    exact hk

theorem Lawful.keeps_roster (hlawful : h.Lawful) {s : σ} {actions : List (Action α)}
    {m : h.Moment} (hs : h.notifier s = .empty) (hm : h.Reaches s actions m) :
    (h.notifier m.state).Keeps (Roster.ofPast m.past) :=
  hlawful.follows_roster.reaches (by rw [hs]; exact Notifier.keeps_empty) hm

end Host

/-! ### Deliveries -/

namespace Report

/-- The calls that an action should bring about, if `about` says which actions start a round. -/
def due (about : Action α × Outcome β → Option BufferId) (r : Roster)
    (entry : Action α × Outcome β) : List (Nat × BufferId) :=
  match about entry with
  | none => []
  | some buffer => r.map fun id => (id, buffer)

mutual

/-- All calls of a list of reports, those inside other calls included. -/
def deliveriesAll : List (Report α β γ) → List (Nat × BufferId)
  | [] => []
  | .mk _ _ calls :: rest => deliveriesCalls calls ++ deliveriesAll rest

def deliveriesCalls : List (Call α β γ) → List (Nat × BufferId)
  | [] => []
  | .mk id _ buffer _ reports :: rest =>
    (id, buffer) :: (deliveriesAll reports ++ deliveriesCalls rest)

end

mutual

/-- Every call was brought about by one action. -/
theorem deliveriesAll_perm (past : List (Action α × Outcome β)) (reports : List (Report α β γ)) :
    (deliveriesAll reports).Perm
      ((spotsAll past reports).flatMap fun spot => spot.report.calls.map Call.address) := by
  match reports with
  | [] => simp [deliveriesAll, spotsAll]
  | .mk action outcome calls :: rest =>
    rw [deliveriesAll, spotsAll, List.flatMap_cons, List.flatMap_append, ← List.append_assoc]
    exact (deliveriesCalls_perm _ calls).append (deliveriesAll_perm _ rest)

theorem deliveriesCalls_perm (past : List (Action α × Outcome β)) (calls : List (Call α β γ)) :
    (deliveriesCalls calls).Perm (calls.map Call.address ++
      (spotsCalls past calls).flatMap fun spot => spot.report.calls.map Call.address) := by
  match calls with
  | [] => simp [deliveriesCalls, spotsCalls]
  | .mk id name buffer seen reports :: rest =>
    rw [deliveriesCalls, spotsCalls, List.map_cons, List.flatMap_append, List.cons_append]
    have hfirst := deliveriesAll_perm past reports
    have hrest := deliveriesCalls_perm (past ++ timelineAll reports) rest
    -- The calls of a round go before those that its observers bring about in between.
    exact .cons _ ((hfirst.append hrest).trans (List.perm_append_comm_assoc _ _ _))

end

end Report

namespace Host

variable {h : Host σ α β γ}

/-- `about` knows from an action and its outcome whether a round was started, and about what. -/
structure Tells (h : Host σ α β γ) (about : Action α × Outcome β → Option BufferId) : Prop where
  subscribed : ∀ name script id, about (.subscribe name script, .subscribed id) = none
  unsubscribed : ∀ id wasRegistered, about (.unsubscribe id, .unsubscribed wasRegistered) = none
  finished : ∀ {s op t result}, h.handle s op = .finished t result →
    about (.perform op, .done result) = none
  announced : ∀ {s op buffer opening close result},
    h.handle s op = .announced buffer opening close result →
      about (.perform op, .done result) = some buffer

theorem Calls.addresses {buffer : BufferId} {s t : σ} {ids : List Nat} {calls : List (Call α β γ)}
    (hcalls : h.Calls buffer s ids t calls) :
    calls.map Call.address = ids.map fun id => (id, buffer) := by
  induction ids generalizing s calls with
  | nil =>
    cases hcalls
    rfl
  | cons id ids ih =>
    cases hcalls with
    | cons acts rest => rw [List.map_cons, List.map_cons, ih rest]; rfl

/-- An action calls all observers that are registered, or none. -/
theorem Acts.addresses {about : Action α × Outcome β → Option BufferId} (hlawful : h.Lawful)
    (htells : h.Tells about) {s t : σ} {action : Action α} {report : Report α β γ}
    (hacts : h.Acts s action t report) :
    report.calls.map Call.address =
      Report.due about (h.notifier s).registered (report.action, report.outcome) := by
  cases hacts with
  | subscribe joined => simp [Report.due, Report.action, Report.outcome, Report.calls, htells.subscribed]
  | unsubscribe left =>
    simp [Report.due, Report.action, Report.outcome, Report.calls, htells.unsubscribed]
  | finished effect =>
    simp [Report.due, Report.action, Report.outcome, Report.calls, htells.finished effect]
  | announced effect round closed =>
    simp only [Report.due, Report.action, Report.outcome, Report.calls, htells.announced effect]
    rw [round.addresses, (hlawful.announced effect).1]

/-- **The calls of an action are those that are due**, wherever in a run it happens. -/
theorem Lawful.calls_eq_due {about : Action α × Outcome β → Option BufferId} (hlawful : h.Lawful)
    (htells : h.Tells about) {s : σ} (hs : h.notifier s = .empty) {actions : List (Action α)}
    {spot : Spot α β γ} (hspot : spot ∈ Report.spotsAll [] (h.run s actions).2) :
    spot.report.calls.map Call.address = Report.due about (Roster.ofPast spot.past) spot.entry := by
  obtain ⟨m, hm, hpast, -, t, hacts⟩ := hlawful.exists_foresees hspot
  rw [hacts.addresses hlawful htells, (hlawful.keeps_roster hs hm).registered, hpast]
  rfl

/-- **The calls of a run** are those that are due for its actions, and no others. -/
theorem Lawful.deliveries_perm_due {about : Action α × Outcome β → Option BufferId}
    (hlawful : h.Lawful) (htells : h.Tells about) {s : σ} (hs : h.notifier s = .empty)
    (actions : List (Action α)) :
    (Report.deliveriesAll (h.run s actions).2).Perm
      ((Report.spotsAll [] (h.run s actions).2).flatMap fun spot =>
        Report.due about (Roster.ofPast spot.past) spot.entry) := by
  refine (Report.deliveriesAll_perm [] _).trans (.of_eq ?_)
  exact List.flatMap_congr fun spot hspot => hlawful.calls_eq_due htells hs hspot

end Host

end LiveSyntax
