import BrineVault.Api.Demotions

/-!
# The notices of the daily run

For every row that it moves the monitor dispatches a notice whose recipient is the id of the organisation. A recipient is a user, by a
foreign key, and an insert that the key refuses is only logged.
-/

namespace BrineVault

open Interleaving
open NotificationDispatcherService (notification)

/-- The notifications that have been added since the state `db`. -/
def added (db : BillingDb) (m : BillingPool) : List NotificationRow := m.store.notifications.drop db.notifications.length

/-- For each subscription that the monitor has moved, a user of its organisation has been given the notice. -/
def Notified (text : Uuid → String) (db : BillingDb) (turns : List (Turn Nat)) (m : BillingPool) : Prop :=
  ∀ r ∈ db.subscriptions, ∀ due, HasMoved (daily text db []) turns due r.id →
    ∃ u ∈ m.store.users, u.orgId = some r.orgId ∧ notification (due.payload text r) u.id ∈ added db m

/-- A pass of the monitor, by its clock, finds the subscription as it was at first. -/
def IsDue (m₀ : BillingPool) (turns : List (Turn Nat)) (r : SubscriptionRow) : Prop :=
  ∃ due now, HasSelected m₀ turns due now ∧ due.Finds now r

/-- The organisation of the subscription has a user whose id is that of the organisation. -/
def HasNamesake (db : BillingDb) (r : SubscriptionRow) : Prop := ∃ u ∈ db.users, u.id = r.orgId ∧ u.orgId = some r.orgId

/-- The columns of a subscription that no command of the monitor sets and that a notice is made of. -/
def SubscriptionRow.terms (r : SubscriptionRow) : Uuid × Uuid × BillingPlan := (r.id, r.orgId, r.plan)

/-- The text of a notification depends on the terms only. -/
theorem Due.payload_eq_of_terms (text : Uuid → String) (due : Due) {r r' : SubscriptionRow} (h : r.terms = r'.terms) :
    due.payload text r = due.payload text r' ∧ r.orgId = r'.orgId := by
  have horg : r.orgId = r'.orgId := congrArg (fun t => t.2.1) h
  have hplan : r.plan = r'.plan := congrArg (fun t => t.2.2) h
  exact ⟨by cases due <;> simp only [payload, horg, hplan], horg⟩

/-- The monitor holds the row: it is to move it, or to give notice of it. -/
def MonitorStage.Holds (due : Due) (sub : SubscriptionRow) : MonitorStage → Prop
  | move due' _ sub' subs => due' = due ∧ sub ∈ sub' :: subs
  | notify due' _ sub' subs => due' = due ∧ sub ∈ sub' :: subs
  | _ => False

/-- The monitor is yet to move the row. -/
def MonitorStage.IsToMove (due : Due) (sub : SubscriptionRow) : MonitorStage → Prop
  | move due' _ sub' subs => due' = due ∧ sub ∈ sub' :: subs
  | notify due' _ _ subs => due' = due ∧ sub ∈ subs
  | _ => False

/-- The monitor has moved the row, and is yet to give notice of it. -/
def MonitorStage.IsToNotify (due : Due) (sub : SubscriptionRow) : MonitorStage → Prop
  | notify due' _ sub' _ => due' = due ∧ sub = sub'
  | _ => False

/-- In a pass the subscription that is held was selected by it. -/
theorem MonitorStage.holds_through {due due' : Due} {now : Nat} {sub : SubscriptionRow} {subs : List SubscriptionRow}
    (h : (through due' now subs).Holds due sub) : due' = due ∧ sub ∈ subs := by
  cases subs with
  | cons => exact h
  | nil => cases due' <;> cases h

/-- A subscription still to come in a pass is to be moved. -/
theorem MonitorStage.isToMove_through {due : Due} {now : Nat} {sub : SubscriptionRow} {subs : List SubscriptionRow} (h : sub ∈ subs) :
    (through due now subs).IsToMove due sub := by
  cases subs with
  | cons => exact ⟨rfl, h⟩
  | nil => cases h

/-- The state of a run of the monitor alone, with the notices that it has added. -/
structure NoticeState (text : Uuid → String) (db : BillingDb) (past : List (Turn Nat)) (m : BillingPool) (s : MonitorStage)
    (notices : List NotificationRow) : Prop where
  monitor : m.threads = [s.program text]
  users : m.store.users = db.users
  terms : m.store.subscriptions.map SubscriptionRow.terms = db.subscriptions.map SubscriptionRow.terms
  notifications : m.store.notifications = db.notifications ++ notices
  sent : ∀ n ∈ notices, ∃ due : Due, ∃ r ∈ db.subscriptions, n = notification (due.payload text r) r.orgId
  origin : ∀ r ∈ db.subscriptions, ∀ r' ∈ m.store.subscriptions, r'.id = r.id → r' = r ∨ IsDue (daily text db []) past r
  held : ∀ due sub, s.Holds due sub → ∃ r ∈ db.subscriptions, r.terms = sub.terms ∧ IsDue (daily text db []) past r
  moved : ∀ r ∈ db.subscriptions, ∀ due, HasMoved (daily text db []) past due r.id → IsDue (daily text db []) past r ∧
    ((∃ sub, s.IsToNotify due sub ∧ sub.id = r.id) ∨
      ((∃ u ∈ db.users, u.id = r.orgId) → notification (due.payload text r) r.orgId ∈ notices))
  covered : ∀ r ∈ db.subscriptions, IsDue (daily text db []) past r →
    ∃ due, HasMoved (daily text db []) past due r.id ∨ ∃ sub, s.IsToMove due sub ∧ sub.id = r.id

variable {text : Uuid → String} {db : BillingDb} {past : List (Turn Nat)} {t : Turn Nat} {m n : BillingPool} {s : MonitorStage}
  {notices : List NotificationRow}

/-- The state at the start. -/
theorem noticeState_start (hids : (db.subscriptions.map SubscriptionRow.id).Nodup) :
    NoticeState text db [] (daily text db []) (.readClock .expiring) [] where
  monitor := rfl
  users := rfl
  terms := rfl
  notifications := (List.append_nil _).symm
  sent := fun _ h => by cases h
  origin := fun r hmem r' hmem' hid => .inl (List.inj_on_of_nodup_map hids hmem' hmem hid)
  held := fun _ _ h => h.elim
  moved := fun _ _ _ h => absurd h not_heard_nil
  covered := by
    rintro r - ⟨due, now, h, -⟩
    exact absurd h not_heard_nil

/-- The rows are those there were at first, with their terms. -/
theorem NoticeState.row_before (h : NoticeState text db past m s notices) {r' : SubscriptionRow} (hmem : r' ∈ m.store.subscriptions) :
    ∃ r ∈ db.subscriptions, r.terms = r'.terms := by
  have hterms : r'.terms ∈ db.subscriptions.map SubscriptionRow.terms := h.terms ▸ List.mem_map_of_mem hmem
  exact List.mem_map.1 hterms

/-- The terms of a subscription are still those it started with. -/
theorem NoticeState.row_now (h : NoticeState text db past m s notices) {r : SubscriptionRow} (hmem : r ∈ db.subscriptions) :
    ∃ r' ∈ m.store.subscriptions, r'.terms = r.terms := by
  have hterms : r.terms ∈ m.store.subscriptions.map SubscriptionRow.terms := h.terms.symm ▸ List.mem_map_of_mem hmem
  exact List.mem_map.1 hterms

section Step

variable (hr : (daily text db []).run past = .ok m)
include hr

/-- What was due stays so. -/
theorem IsDue.snoc {r : SubscriptionRow} (h : IsDue (daily text db []) past r) : IsDue (daily text db []) (past ++ [t]) r := by
  obtain ⟨due, now, hsel, hfinds⟩ := h
  exact ⟨due, now, (heard_snoc hr).2 (.inl hsel), hfinds⟩

/-- A turn of the monitor that queries nothing makes nothing due. -/
theorem IsDue.of_snoc {c : BillingCommand} {k : c.Reply → Billing Unit} (h0 : m.threads[0]? = some (.call c k))
    (hno : ∀ due now, c ≠ .subscriptionsFind due now) {r : SubscriptionRow} (h : IsDue (daily text db []) (past ++ [.thread 0]) r) :
    IsDue (daily text db []) past r := by
  obtain ⟨due, now, hsel, hfinds⟩ := h
  exact ⟨due, now, (hasSelected_snoc_iff hr h0 (hno due now)).1 hsel, hfinds⟩

/-- A turn that neither selects rows nor moves one, and that adds no notice. -/
theorem NoticeState.quiet (h : NoticeState text db past m s notices) {s' : MonitorStage}
    (hmonitor : n.threads = [s'.program text]) (husers : n.store.users = m.store.users)
    (hsubs : n.store.subscriptions = m.store.subscriptions) (hnotes : n.store.notifications = m.store.notifications)
    (hselected : ∀ due now, HasSelected (daily text db []) (past ++ [t]) due now → HasSelected (daily text db []) past due now)
    (hmoved : ∀ due id, HasMoved (daily text db []) (past ++ [t]) due id → HasMoved (daily text db []) past due id)
    (hholds : ∀ due sub, s'.Holds due sub → s.Holds due sub) (hmove : ∀ due sub, s.IsToMove due sub → s'.IsToMove due sub)
    (hnotify : ∀ due sub, s.IsToNotify due sub → s'.IsToNotify due sub) :
    NoticeState text db (past ++ [t]) n s' notices where
  monitor := hmonitor
  users := husers.trans h.users
  terms := by rw [hsubs, h.terms]
  notifications := hnotes.trans h.notifications
  sent := h.sent
  origin := by
    intro r hmem r' hmem' hid
    exact (h.origin r hmem r' (hsubs ▸ hmem') hid).imp_right (IsDue.snoc hr)
  held := by
    intro due sub hsub
    obtain ⟨r, hmem, hterms, hdue⟩ := h.held due sub (hholds due sub hsub)
    exact ⟨r, hmem, hterms, hdue.snoc hr⟩
  moved := by
    intro r hmem due hm
    obtain ⟨hdue, hnotice⟩ := h.moved r hmem due (hmoved due r.id hm)
    refine ⟨hdue.snoc hr, hnotice.imp_left ?_⟩
    rintro ⟨sub, hsub, hid⟩
    exact ⟨sub, hnotify due sub hsub, hid⟩
  covered := by
    rintro r hmem ⟨due, now, hsel, hfinds⟩
    obtain ⟨due', hm | ⟨sub, hsub, hid⟩⟩ := h.covered r hmem ⟨due, now, hselected due now hsel, hfinds⟩
    · exact ⟨due', .inl ((heard_snoc hr).2 (.inl hm))⟩
    · exact ⟨due', .inr ⟨sub, hmove due' sub hsub, hid⟩⟩

/-- A selection keeps the state: every subscription it finds is due and to be moved. -/
theorem NoticeState.select {due : Due} {now : Nat} (h : NoticeState text db past m (.select due now) notices)
    {k : List SubscriptionRow → Billing Unit} (h0 : m.threads[0]? = some (.call (.subscriptionsFind due now) k))
    (hmonitor : n.threads = [((MonitorStage.select due now).next m.store).program text]) (hstore : n.store = m.store) :
    NoticeState text db (past ++ [.thread 0]) n ((MonitorStage.select due now).next m.store) notices := by
  have hselected : ∀ {r}, due.Finds now r → IsDue (daily text db []) (past ++ [.thread 0]) r := fun hfinds =>
    ⟨due, now, (heard_snoc_self hr h0).2 (.inr rfl), hfinds⟩
  have hmoved : ∀ due' id, HasMoved (daily text db []) (past ++ [.thread 0]) due' id ↔ HasMoved (daily text db []) past due' id :=
    fun _ _ => hasMoved_snoc_iff hr h0 not_moves_find
  refine ⟨hmonitor, hstore ▸ h.users, hstore ▸ h.terms, hstore ▸ h.notifications, h.sent, ?_, ?_, ?_, ?_⟩
  · intro r hmem r' hmem' hid
    exact (h.origin r hmem r' (hstore ▸ hmem') hid).imp_right (IsDue.snoc hr)
  · intro due' sub hsub
    obtain ⟨rfl, hfound⟩ := MonitorStage.holds_through hsub
    obtain ⟨hfound, hfinds⟩ := List.mem_filter.1 hfound
    rw [decide_eq_true_eq] at hfinds
    obtain ⟨r, hmem, hterms⟩ := h.row_before hfound
    refine ⟨r, hmem, hterms, ?_⟩
    have hid : sub.id = r.id := (congrArg Prod.fst hterms).symm
    rcases h.origin r hmem sub hfound hid with rfl | hdue
    · exact hselected hfinds
    · exact hdue.snoc hr
  · intro r hmem due' hm
    obtain ⟨hdue, ⟨sub, hsub, -⟩ | hnotice⟩ := h.moved r hmem due' ((hmoved due' r.id).1 hm)
    · cases hsub
    · exact ⟨hdue.snoc hr, .inr hnotice⟩
  · intro r hmem hdue
    have hbefore : IsDue (daily text db []) past r →
        ∃ due', HasMoved (daily text db []) (past ++ [.thread 0]) due' r.id ∨
          ∃ sub, ((MonitorStage.select due now).next m.store).IsToMove due' sub ∧ sub.id = r.id := by
      intro hdue
      obtain ⟨due', hm | ⟨sub, hsub, -⟩⟩ := h.covered r hmem hdue
      · exact ⟨due', .inl ((hmoved due' r.id).2 hm)⟩
      · cases hsub
    obtain ⟨due', now', hsel, hfinds⟩ := hdue
    rw [HasSelected, heard_snoc_self hr h0, Finds, BillingCommand.subscriptionsFind.injEq] at hsel
    rcases hsel with hsel | ⟨rfl, rfl⟩
    · exact hbefore ⟨due', now', hsel, hfinds⟩
    · obtain ⟨r', hmem', hterms⟩ := h.row_now hmem
      have hid : r'.id = r.id := congrArg Prod.fst hterms
      rcases h.origin r hmem r' hmem' hid with rfl | hdue
      · exact ⟨due, .inr ⟨r', MonitorStage.isToMove_through (List.mem_filter.2 ⟨hmem', by simpa using hfinds⟩), rfl⟩⟩
      · exact hbefore hdue

/-- The move of a subscription keeps it. -/
theorem NoticeState.move {due : Due} {now : Nat} {sub : SubscriptionRow} {subs : List SubscriptionRow}
    (hids : (db.subscriptions.map SubscriptionRow.id).Nodup)
    (h : NoticeState text db past m (.move due now sub subs) notices) {k : List SubscriptionRow → Billing Unit}
    (h0 : m.threads[0]? = some (.call (.subscriptionsUpdate sub.id (due.data now)) k))
    (hmonitor : n.threads = [(MonitorStage.notify due now sub subs).program text]) (husers : n.store.users = m.store.users)
    (hnotes : n.store.notifications = m.store.notifications)
    (hsubs : n.store.subscriptions = Rows.updateAt SubscriptionRow.id sub.id (due.data now).set m.store.subscriptions) :
    NoticeState text db (past ++ [.thread 0]) n (.notify due now sub subs) notices := by
  have hmoved : ∀ due' id, HasMoved (daily text db []) (past ++ [.thread 0]) due' id ↔
      HasMoved (daily text db []) past due' id ∨ due' = due ∧ id = sub.id := by
    intro due' id
    rw [HasMoved, heard_snoc_self hr h0, moves_update_iff]
    rfl
  -- The row at first of the one that is moved was due.
  have hsub : ∀ r ∈ db.subscriptions, r.id = sub.id → IsDue (daily text db []) past r := by
    intro r hmem hid
    obtain ⟨r₀, hmem₀, hterms, hdue₀⟩ := h.held due sub ⟨rfl, List.mem_cons_self ..⟩
    have hsame : r = r₀ := List.inj_on_of_nodup_map hids hmem hmem₀ (hid.trans (congrArg Prod.fst hterms).symm)
    exact hsame ▸ hdue₀
  refine ⟨hmonitor, husers.trans h.users, ?_, hnotes.trans h.notifications, h.sent, ?_, ?_, ?_, ?_⟩
  · rw [hsubs, ← h.terms, Rows.updateAt, List.map_map]
    refine List.map_congr_left fun r _ => ?_
    rw [Function.comp_apply]
    split
    · cases due <;> rfl
    · rfl
  · intro r hmem r' hmem' hid
    rw [hsubs] at hmem'
    obtain ⟨r'', hmem'', ⟨-, rfl⟩ | ⟨hid'', rfl⟩⟩ := mem_updateAt.1 hmem'
    · exact (h.origin r hmem r' hmem'' hid).imp_right (IsDue.snoc hr)
    · exact .inr ((hsub r hmem (hid.symm.trans hid'')).snoc hr)
  · rintro due' sub' ⟨rfl, hmem⟩
    obtain ⟨r, hmem', hterms, hdue'⟩ := h.held due sub' ⟨rfl, hmem⟩
    exact ⟨r, hmem', hterms, hdue'.snoc hr⟩
  · intro r hmem due' hm
    rcases (hmoved due' r.id).1 hm with hm | ⟨rfl, hid⟩
    · obtain ⟨hdue', ⟨sub', hsub', -⟩ | hnotice⟩ := h.moved r hmem due' hm
      · cases hsub'
      · exact ⟨hdue'.snoc hr, .inr hnotice⟩
    · exact ⟨(hsub r hmem hid).snoc hr, .inl ⟨sub, ⟨rfl, rfl⟩, hid.symm⟩⟩
  · intro r hmem hdue'
    obtain ⟨due', hm | ⟨sub', ⟨rfl, hmem'⟩, hid⟩⟩ := h.covered r hmem (IsDue.of_snoc hr h0 (by simp) hdue')
    · exact ⟨due', .inl ((hmoved due' r.id).2 (.inl hm))⟩
    · rcases List.mem_cons.1 hmem' with rfl | hmem'
      · exact ⟨due, .inl ((hmoved due r.id).2 (.inr ⟨rfl, hid.symm⟩))⟩
      · exact ⟨due, .inr ⟨sub', ⟨rfl, hmem'⟩, hid⟩⟩

/-- The turn in which the monitor gives notice: the row is added when the recipient is a user. -/
theorem NoticeState.notify {due : Due} {now : Nat} {sub : SubscriptionRow} {subs : List SubscriptionRow}
    (hids : (db.subscriptions.map SubscriptionRow.id).Nodup)
    (h : NoticeState text db past m (.notify due now sub subs) notices) {k : Bool → Billing Unit}
    (h0 : m.threads[0]? = some (.call (.notificationsCreate (notification (due.payload text sub) sub.orgId)) k))
    (hmonitor : n.threads = [((MonitorStage.notify due now sub subs).next m.store).program text])
    (hstore : n.store = (m.store.exec (.notificationsCreate (notification (due.payload text sub) sub.orgId))).2) :
    ∃ notices', NoticeState text db (past ++ [.thread 0]) n ((MonitorStage.notify due now sub subs).next m.store) notices' := by
  obtain ⟨r₀, hmem₀, hterms, -⟩ := h.held due sub ⟨rfl, List.mem_cons_self ..⟩
  obtain ⟨hpayload, horg⟩ := due.payload_eq_of_terms text hterms
  rw [← hpayload, ← horg] at hstore h0
  -- What the insert adds: the notice or, when its recipient is no user, nothing.
  obtain ⟨extra, hrows, hadds, honly⟩ : ∃ extra, n.store = { m.store with notifications := m.store.notifications ++ extra } ∧
      ((∃ u ∈ db.users, u.id = r₀.orgId) → notification (due.payload text r₀) r₀.orgId ∈ extra) ∧
      ∀ x ∈ extra, x = notification (due.payload text r₀) r₀.orgId := by
    rw [← h.users, hstore]
    simp only [BillingDb.exec]
    split
    · exact ⟨_, rfl, fun _ => List.mem_singleton_self _, fun x hx => List.mem_singleton.1 hx⟩
    · rename_i hno
      exact ⟨[], by rw [List.append_nil], fun hu => absurd hu hno, fun x hx => by cases hx⟩
  have hmoved : ∀ due' id, HasMoved (daily text db []) (past ++ [.thread 0]) due' id ↔ HasMoved (daily text db []) past due' id :=
    fun _ _ => hasMoved_snoc_iff hr h0 not_moves_create
  refine ⟨notices ++ extra, hmonitor, ?_, ?_, ?_, ?_, ?_, ?_, ?_, ?_⟩
  · rw [hrows]
    exact h.users
  · rw [hrows]
    exact h.terms
  · rw [hrows, ← List.append_assoc, ← h.notifications]
  · intro x hx
    rcases List.mem_append.1 hx with hx | hx
    · exact h.sent x hx
    · exact ⟨due, r₀, hmem₀, honly x hx⟩
  · intro r hmem r' hmem' hid
    rw [hrows] at hmem'
    exact (h.origin r hmem r' hmem' hid).imp_right (IsDue.snoc hr)
  · intro due' sub' hsub
    obtain ⟨rfl, hmem⟩ := MonitorStage.holds_through hsub
    obtain ⟨r, hmem', hterms', hdue⟩ := h.held due sub' ⟨rfl, List.mem_cons_of_mem _ hmem⟩
    exact ⟨r, hmem', hterms', hdue.snoc hr⟩
  · intro r hmem due' hm
    obtain ⟨hdue, hnotice⟩ := h.moved r hmem due' ((hmoved due' r.id).1 hm)
    refine ⟨hdue.snoc hr, .inr fun hu => List.mem_append.2 ?_⟩
    rcases hnotice with ⟨sub', ⟨rfl, rfl⟩, hid⟩ | hnotice
    · have hsame : r = r₀ :=
        List.inj_on_of_nodup_map hids hmem hmem₀ (hid.symm.trans (congrArg Prod.fst hterms).symm)
      subst hsame
      exact .inr (hadds hu)
    · exact .inl (hnotice hu)
  · intro r hmem hdue
    obtain ⟨due', hm | ⟨sub', ⟨rfl, hmem'⟩, hid⟩⟩ := h.covered r hmem (IsDue.of_snoc hr h0 (by simp) hdue)
    · exact ⟨due', .inl ((hmoved due' r.id).2 hm)⟩
    · exact ⟨due, .inr ⟨sub', MonitorStage.isToMove_through hmem', hid⟩⟩

/-- A turn of the monitor, or time that passes. -/
theorem NoticeState.step (hids : (db.subscriptions.map SubscriptionRow.id).Nodup) (h : NoticeState text db past m s notices)
    (ht : Interleaving.step BillingDb.exec BillingDb.elapse m t = .ok n) :
    ∃ s' notices', NoticeState text db (past ++ [t]) n s' notices' := by
  rcases step_cases ht with ⟨ms, rfl, rfl⟩ | ⟨i, c, k, rfl, hi, rfl⟩
  · exact ⟨s, notices, h.quiet hr h.monitor rfl rfl rfl (fun _ _ => (heard_snoc_other hr (by simp)).1)
      (fun _ _ => (heard_snoc_other hr (by simp)).1) (fun _ _ hs => hs) (fun _ _ hs => hs) fun _ _ hs => hs⟩
  · obtain ⟨rfl, hp⟩ : i = 0 ∧ s.program text = .call c k := by
      rw [h.monitor, List.getElem?_singleton] at hi
      split at hi
      · rename_i hzero
        exact ⟨hzero, Option.some.inj hi⟩
      · cases hi
    have hmonitor : m.threads.set 0 (k (m.store.exec c).1) = [(s.next m.store).program text] := by
      rw [h.monitor, MonitorStage.program_next hp]
      rfl
    have hc := MonitorStage.program_eq_call hp
    cases s with
    | readClock due =>
      cases hc
      refine ⟨_, notices, h.quiet hr hmonitor rfl rfl rfl ?_ ?_ (fun _ _ hs => hs.elim) (fun _ _ hs => hs.elim)
        fun _ _ hs => hs.elim⟩
      · intro due' now hsel
        exact ((heard_snoc_self hr hi).1 hsel).resolve_right fun hf => by cases hf
      · intro due' id hmoved
        refine ((heard_snoc_self hr hi).1 hmoved).resolve_right ?_
        rintro ⟨data, he, -⟩
        cases he
    | select due now =>
      cases hc
      exact ⟨_, _, h.select hr hi hmonitor rfl⟩
    | move due now sub subs =>
      cases hc
      exact ⟨_, _, h.move hr hids hi hmonitor rfl rfl rfl⟩
    | notify due now sub subs =>
      cases hc
      exact ⟨_, h.notify hr hids hi hmonitor rfl⟩
    | done => cases hc

end Step

/-- The monitor has come to its end. -/
theorem NoticeState.done_of_finished (h : NoticeState text db past m s notices) (hf : m.Finished) : s = .done := by
  have hresult := hf (s.program text) (by rw [h.monitor]; exact List.mem_singleton_self _)
  cases s with
  | done => rfl
  | readClock due => cases due <;> cases hresult
  | select => cases hresult
  | move due now sub subs =>
    rw [MonitorStage.program, Due.goThrough_cons] at hresult
    cases hresult
  | notify => cases hresult

/-- When the monitor has run alone, and come to its end, the organisations of the subscriptions that it has moved have been given notice
exactly when each of the subscriptions that its passes found is of an organisation with a user of the same id. -/
theorem notified_iff (text : Uuid → String) {db : BillingDb} (hids : (db.subscriptions.map SubscriptionRow.id).Nodup)
    (htext : ∀ r ∈ db.subscriptions, ∀ r' ∈ db.subscriptions, text r.orgId = text r'.orgId → r.orgId = r'.orgId)
    {turns : List (Turn Nat)} {m : BillingPool} (hr : (daily text db []).run turns = .ok m) (hf : m.Finished) :
    Notified text db turns m ↔ ∀ r ∈ db.subscriptions, IsDue (daily text db []) turns r → HasNamesake db r := by
  obtain ⟨s, notices, h⟩ : ∃ s notices, NoticeState text db turns m s notices := by
    refine Steps.run_invariant (Interleaving.step BillingDb.exec BillingDb.elapse)
      (fun past m => ∃ s notices, NoticeState text db past m s notices) ⟨_, _, noticeState_start hids⟩ ?_ hr
    rintro past m t n hm ⟨s, notices, h⟩ ht
    exact h.step hm hids ht
  have hadded : added db m = notices := by rw [added, h.notifications, List.drop_left]
  obtain rfl := h.done_of_finished hf
  constructor
  · intro hnotified r hmem hdue
    obtain ⟨due, hmoved | ⟨sub, hsub, -⟩⟩ := h.covered r hmem hdue
    · obtain ⟨u, hu, horg, hnotice⟩ := hnotified r hmem due hmoved
      rw [hadded] at hnotice
      obtain ⟨due', r', hmem', hsame⟩ := h.sent _ hnotice
      have hid : u.id = r'.orgId := congrArg NotificationRow.userId hsame
      have htype := congrArg NotificationRow.type hsame
      have htitle := congrArg NotificationRow.title hsame
      have horgs : r.orgId = r'.orgId := by
        obtain rfl : due = due' := by cases due <;> cases due' <;> first | rfl | cases htype
        refine htext r hmem r' hmem' ?_
        cases due <;> simpa [notification, Due.payload] using htitle
      exact ⟨u, h.users ▸ hu, hid.trans horgs.symm, horg⟩
    · cases hsub
  · intro hall r hmem due hmoved
    obtain ⟨hdue, ⟨sub, hsub, -⟩ | hnotice⟩ := h.moved r hmem due hmoved
    · cases hsub
    · obtain ⟨u, hu, hid, horg⟩ := hall r hmem hdue
      refine ⟨u, h.users.symm ▸ hu, horg, ?_⟩
      rw [hadded, hid]
      exact hnotice ⟨u, hu, hid⟩

namespace Sample

/-- A user of an organisation. -/
def userOf (id orgId : Uuid) : UserRow := { id, primaryWalletAddress := "0x1", displayName := none, orgId := some orgId, roleInOrg := 1 }

/-- An organisation whose period is over, and one of its users. -/
def billed (userId : Uuid) : BillingDb := { billingDb with users := [userOf userId (.given 1)] }

end Sample

/-- The user has the id of the organisation. -/
theorem notified_iff_sample :
    ∃ m, (daily Sample.uuidText (Sample.billed (.given 1)) []).run (.replicate 6 (.thread 0)) = .ok m ∧ m.Finished ∧
      (Notified Sample.uuidText (Sample.billed (.given 1)) (.replicate 6 (.thread 0)) m ↔
        ∀ r ∈ (Sample.billed (.given 1)).subscriptions,
          IsDue (daily Sample.uuidText (Sample.billed (.given 1)) []) (.replicate 6 (.thread 0)) r → HasNamesake (Sample.billed (.given 1)) r) := by
  refine ⟨_, rfl, by decide +kernel, notified_iff Sample.uuidText (by decide) ?_ rfl (by decide +kernel)⟩
  intro r hr r' hr' _
  rw [List.mem_singleton.1 hr, List.mem_singleton.1 hr']

/-- The subscription of an organisation is moved to its grace period, and its only user is not given notice. -/
theorem notice_lost :
    ∃ m, (daily Sample.uuidText (Sample.billed (.given 7)) []).run (.replicate 6 (.thread 0)) = .ok m ∧ m.Finished ∧
      m.store.notifications = [] ∧ ¬ Notified Sample.uuidText (Sample.billed (.given 7)) (.replicate 6 (.thread 0)) m := by
  refine ⟨_, rfl, by decide +kernel, rfl, ?_⟩
  intro h
  have hmoved : HasMoved (daily Sample.uuidText (Sample.billed (.given 7)) []) (.replicate 6 (.thread 0)) .expiring (.given 10) :=
    ⟨.replicate 2 (.thread 0), _, _, rfl, rfl, _, _, rfl, _, rfl, rfl⟩
  obtain ⟨u, -, -, hnotice⟩ := h _ (List.mem_singleton_self _) .expiring hmoved
  cases hnotice

end BrineVault
