import BrineVault.Api.Backend
import BrineVault.Lib.Rows

/-!
# `notifications.service.ts`: the preferences of a user

`updatePreferences` reads the stored preferences, merges the request into them, and writes all of them back, with one more read in between
that decides between an update and an insert. Two calls of one user lose the update of the one that writes first, unless the other begins
after it has ended.
-/

namespace BrineVault

open Interleaving (Prog Turn step step_cases labelled_step)
open Steps (run run_cons_ok run_append_ok run_snoc_ok run_invariant run_preserves)

/-! ## Preferences -/

/-- What a user has set for one type of notification. -/
structure PerTypePreference where
  email : Option Bool := none
  in_app : Option Bool := none
  deriving DecidableEq, Repr

/-- `{ ...old, ...val }`. -/
def PerTypePreference.spread (old val : PerTypePreference) : PerTypePreference :=
  { email := val.email.or old.email, in_app := val.in_app.or old.in_app }

/-- A JSON object from types of notification. -/
abbrev Preferences := String → Option PerTypePreference

structure PreferencesRow where
  userId : Uuid
  emailEnabled : Bool
  inAppEnabled : Bool
  preferences : Preferences

structure UpdatePreferencesDto where
  emailEnabled : Option Bool := none
  inAppEnabled : Option Bool := none
  preferences : Option Preferences := none

/-- The columns that an update sets. -/
structure PreferencesUpdate where
  preferences : Preferences
  emailEnabled : Option Bool
  inAppEnabled : Option Bool

def PreferencesUpdate.set (data : PreferencesUpdate) (r : PreferencesRow) : PreferencesRow :=
  { r with
    preferences := data.preferences
    emailEnabled := data.emailEnabled.getD r.emailEnabled
    inAppEnabled := data.inAppEnabled.getD r.inAppEnabled }

namespace UpdatePreferencesDto

/-- What the request sets for a type. -/
def sets (dto : UpdatePreferencesDto) (type : String) : Option PerTypePreference := dto.preferences.bind fun p => p type

def merged (dto : UpdatePreferencesDto) (existingPrefs : Preferences) : Preferences := fun key =>
  match dto.sets key with
  | none => existingPrefs key
  | some val => some (((existingPrefs key).getD {}).spread val)

def updateData (dto : UpdatePreferencesDto) (existingPrefs : Preferences) : PreferencesUpdate :=
  { preferences := dto.merged existingPrefs, emailEnabled := dto.emailEnabled, inAppEnabled := dto.inAppEnabled }

end UpdatePreferencesDto

/-! ## Statements -/

inductive PreferencesCommand where
  | findByUserId (userId : Uuid)
  | update (userId : Uuid) (data : PreferencesUpdate)
  | insert (userId : Uuid) (data : PreferencesUpdate)

/-- What a statement answers. An insert answers `none` when a constraint of the table refuses it. -/
abbrev PreferencesCommand.Reply : PreferencesCommand → Type
  | .findByUserId _ => Option PreferencesRow
  | .update _ _ => List PreferencesRow
  | .insert _ _ => Option PreferencesRow

/-- The ids of the users, and the table of their preferences. -/
structure PreferencesDb where
  users : List Uuid
  rows : List PreferencesRow

namespace PreferencesDb

def findByUserId (db : PreferencesDb) (userId : Uuid) : Option PreferencesRow := Rows.find PreferencesRow.userId userId db.rows

/-- `user_id` is unique and names a user. -/
def exec (db : PreferencesDb) : (c : PreferencesCommand) → c.Reply × PreferencesDb
  | .findByUserId userId => (db.findByUserId userId, db)
  | .update userId data =>
    ((db.rows.filter fun r => r.userId = userId).map data.set,
      { db with rows := Rows.updateAt PreferencesRow.userId userId data.set db.rows })
  | .insert userId data =>
    if userId ∈ db.users ∧ Rows.has PreferencesRow.userId userId db.rows = false then
      let row := data.set { userId, emailEnabled := true, inAppEnabled := true, preferences := fun _ => none }
      (some row, { db with rows := db.rows ++ [row] })
    else (none, db)

/-- The stored preferences of a user. -/
def preferencesOf (db : PreferencesDb) (userId : Uuid) : Option Preferences := (db.findByUserId userId).map PreferencesRow.preferences

end PreferencesDb

/-- The answer is the row, and `undefined` where none has been updated. -/
abbrev PreferencesCall := Prog PreferencesCommand PreferencesCommand.Reply HttpException (Option PreferencesRow)

namespace NotificationPreferencesRepository

def findByUserId (userId : Uuid) : Prog PreferencesCommand PreferencesCommand.Reply HttpException (Option PreferencesRow) :=
  Prog.send (PreferencesCommand.findByUserId userId)

def update (userId : Uuid) (data : PreferencesUpdate) : PreferencesCall := do
  let rows ← Prog.send (PreferencesCommand.update userId data)
  return rows.head?

def upsert (userId : Uuid) (data : PreferencesUpdate) : PreferencesCall := do
  match ← findByUserId userId with
  | some _ => update userId data
  | none =>
    match ← Prog.send (PreferencesCommand.insert userId data) with
    | some row => return some row
    | none => .throw internalError

end NotificationPreferencesRepository

def NotificationsService.updatePreferences (userId : Uuid) (dto : UpdatePreferencesDto) : PreferencesCall := do
  let existing ← NotificationPreferencesRepository.findByUserId userId
  let existingPrefs := (existing.map PreferencesRow.preferences).getD fun _ => none
  NotificationPreferencesRepository.upsert userId (dto.updateData existingPrefs)

open NotificationPreferencesRepository NotificationsService

/-- A turn of one of the calls. -/
abbrev updating := @step PreferencesCommand PreferencesCommand.Reply HttpException (Option PreferencesRow) PreferencesDb Empty
  PreferencesDb.exec fun db _ => db

/-- The pool of the calls of one user. -/
def preferencesCalls (db : PreferencesDb) (userId : Uuid) (dtos : List UpdatePreferencesDto) :
    Interleaving.Pool PreferencesCommand PreferencesCommand.Reply PreferencesDb HttpException (Option PreferencesRow) :=
  { store := db, threads := dtos.map (updatePreferences userId) }

/-! ## One call between its statements -/

/-- How far a call is. `old` are the preferences that it has read first. -/
inductive UpdateStage where
  | start
  | fetched (old : Preferences)
  | writing (old : Preferences)
  | written (answer : Option PreferencesRow)

def UpdateStage.program (userId : Uuid) (dto : UpdatePreferencesDto) : UpdateStage → PreferencesCall
  | .start => updatePreferences userId dto
  | .fetched old => upsert userId (dto.updateData old)
  | .writing old => update userId (dto.updateData old)
  | .written answer => .ret answer

abbrev callProgram (userId : Uuid) (l : UpdatePreferencesDto × UpdateStage) : PreferencesCall := l.2.program userId l.1

/-- The calls are where their labels say, and the user has a row with these preferences. -/
structure CallsAt (userId : Uuid) (ls : List (UpdatePreferencesDto × UpdateStage)) (p : Preferences)
    (m : Interleaving.Pool PreferencesCommand PreferencesCommand.Reply PreferencesDb HttpException (Option PreferencesRow)) :
    Prop where
  labelled : m.Labelled (callProgram userId) ls
  stored : m.store.preferencesOf userId = some p

/-- An update is what is found afterwards. -/
theorem PreferencesDb.preferencesOf_update {db : PreferencesDb} {userId : Uuid} {p : Preferences} (h : db.preferencesOf userId = some p)
    (data : PreferencesUpdate) : (db.exec (.update userId data)).2.preferencesOf userId = some data.preferences := by
  obtain ⟨row, hrow, -⟩ := Option.map_eq_some_iff.1 h
  have hfind := @Rows.find_updateAt _ _ _ PreferencesRow.userId data.set (fun _ => rfl) userId userId db.rows
  rw [preferencesOf, findByUserId, exec, hfind, show Rows.find PreferencesRow.userId userId db.rows = some row from hrow]
  simp [PreferencesUpdate.set]

variable {userId : Uuid} {ls : List (UpdatePreferencesDto × UpdateStage)} {p old : Preferences}
  {m n : Interleaving.Pool PreferencesCommand PreferencesCommand.Reply PreferencesDb HttpException (Option PreferencesRow)}
  {t : Turn Empty}

/-- What a turn does, where the user has a row. -/
theorem CallsAt.turn (h : CallsAt userId ls p m) (ht : updating m t = .ok n) :
    ∃ i dto, t = .thread i ∧
      ((ls[i]? = some (dto, .start) ∧ CallsAt userId (ls.set i (dto, .fetched p)) p n) ∨
        (∃ old, ls[i]? = some (dto, .fetched old) ∧ CallsAt userId (ls.set i (dto, .writing old)) p n) ∨
        ∃ old answer, ls[i]? = some (dto, .writing old) ∧ CallsAt userId (ls.set i (dto, .written answer)) (dto.merged old) n) := by
  obtain ⟨row, hrow, hp⟩ := Option.map_eq_some_iff.1 h.stored
  obtain ⟨e, -⟩ | ⟨i, ⟨dto, s⟩, c, k, rfl, hi, hc, hstore, hlab⟩ := labelled_step h.labelled ht
  · cases e
  · refine ⟨i, dto, rfl, ?_⟩
    cases s with
    | start =>
      cases hc
      have hreply : (PreferencesDb.exec m.store (.findByUserId userId)).1 = some row := hrow
      refine .inl ⟨hi, hlab (dto, .fetched p) ?_, by rw [hstore]; exact h.stored⟩
      rw [hreply, ← hp]
      rfl
    | fetched old =>
      cases hc
      have hreply : (PreferencesDb.exec m.store (.findByUserId userId)).1 = some row := hrow
      refine .inr (.inl ⟨old, hi, hlab (dto, .writing old) ?_, by rw [hstore]; exact h.stored⟩)
      rw [hreply]
      rfl
    | writing old =>
      cases hc
      exact .inr (.inr ⟨old, _, hi, hlab (dto, .written _) rfl, by rw [hstore]; exact PreferencesDb.preferencesOf_update h.stored _⟩)
    | written answer => cases hc

/-! ## Over runs -/

/-- What a call that has taken `k` turns is at, where nothing has been written. -/
def UpdateStage.afterTurns (old : Preferences) : Nat → UpdateStage
  | 0 => .start
  | 1 => .fetched old
  | _ => .writing old

section AfterTurns

variable {q : Preferences} {k : Nat}

/-- A call has just started when it has had no turn. -/
theorem UpdateStage.afterTurns_eq_start : afterTurns old k = .start ↔ k = 0 := by
  rcases k with _ | _ | _ <;> simp [afterTurns]

/-- It has read the preferences when it has had one. -/
theorem UpdateStage.afterTurns_eq_fetched : afterTurns old k = .fetched q ↔ k = 1 ∧ old = q := by
  rcases k with _ | _ | _ <;> simp [afterTurns]

/-- It is about to write them when it has had two or more. -/
theorem UpdateStage.afterTurns_eq_writing : afterTurns old k = .writing q ↔ 2 ≤ k ∧ old = q := by
  rcases k with _ | _ | _ <;> simp [afterTurns]

/-- In this phase it has not written. -/
theorem UpdateStage.afterTurns_ne_written {answer : Option PreferencesRow} : afterTurns old k ≠ .written answer := by
  rcases k with _ | _ | _ <;> simp [afterTurns]

end AfterTurns

/-- The calls after turns of which no call has taken more than two. -/
def unwritten (old : Preferences) (dtos : List UpdatePreferencesDto) (turns : Nat → Nat) : List (UpdatePreferencesDto × UpdateStage) :=
  dtos.mapIdx fun i dto => (dto, .afterTurns old (turns i))

/-- Each call is where its own turns have led it. -/
theorem unwritten_getElem? {dtos : List UpdatePreferencesDto} {turns : Nat → Nat} {i : Nat} {l : UpdatePreferencesDto × UpdateStage} :
    (unwritten old dtos turns)[i]? = some l ↔ ∃ dto, dtos[i]? = some dto ∧ l = (dto, .afterTurns old (turns i)) := by
  rw [unwritten, List.getElem?_mapIdx, Option.map_eq_some_iff]
  simp only [eq_comm]

/-- One call takes a turn. -/
theorem unwritten_set {dtos : List UpdatePreferencesDto} {turns turns' : Nat → Nat} {i : Nat} {dto : UpdatePreferencesDto}
    (hi : dtos[i]? = some dto) (hne : ∀ j, j ≠ i → turns' j = turns j) :
    (unwritten old dtos turns).set i (dto, .afterTurns old (turns' i)) = unwritten old dtos turns' := by
  refine List.ext_getElem? fun j => ?_
  by_cases hj : i = j
  · subst hj
    have hlt : i < (unwritten old dtos turns).length := by
      rw [unwritten, List.length_mapIdx]
      exact (List.getElem?_eq_some_iff.1 hi).1
    rw [List.getElem?_set_self hlt, eq_comm, unwritten_getElem?]
    exact ⟨dto, hi, rfl⟩
  · rw [List.getElem?_set_ne hj, unwritten, unwritten, List.getElem?_mapIdx, List.getElem?_mapIdx, hne j (Ne.symm hj)]

/-- While no call has taken its third turn, all of them have read what was stored in the beginning. -/
theorem callsAt_unwritten {db : PreferencesDb} {dtos : List UpdatePreferencesDto} (hold : db.preferencesOf userId = some old)
    {ts : List (Turn Empty)} (hr : run updating (preferencesCalls db userId dtos) ts = .ok m) (hts : ∀ i, ts.count (.thread i) < 3) :
    CallsAt userId (unwritten old dtos fun i => ts.count (.thread i)) old m := by
  refine run_invariant updating (fun ts m => (∀ i, ts.count (.thread i) < 3) →
    CallsAt userId (unwritten old dtos fun i => ts.count (.thread i)) old m) ?_ ?_ hr hts
  · refine fun _ => ⟨?_, hold⟩
    refine List.ext_getElem? fun i => ?_
    rw [preferencesCalls, List.getElem?_map, List.getElem?_map, unwritten, List.getElem?_mapIdx, Option.map_map]
    rfl
  · intro ts m t n _ ih ht hts
    have hcount : ∀ i, (ts ++ [t]).count (.thread i) = ts.count (.thread i) + if t = .thread i then 1 else 0 := by
      intro i
      rw [List.count_append, List.count_singleton]
      simp
    have h := ih fun i => by
      have := hts i
      rw [hcount] at this
      omega
    have hother : ∀ i, t = .thread i → ∀ j, j ≠ i → (ts ++ [t]).count (.thread j) = ts.count (.thread j) := by
      rintro i rfl j hj
      rw [hcount, if_neg (by simpa using hj.symm), Nat.add_zero]
    obtain ⟨i, dto, rfl, ⟨hi, hn⟩ | ⟨q, hi, hn⟩ | ⟨q, answer, hi, -⟩⟩ := h.turn ht
    all_goals
      obtain ⟨dto', hdto, heq⟩ := unwritten_getElem?.1 hi
      rw [Prod.mk.injEq] at heq
      obtain ⟨rfl, hs⟩ := heq
      have hself := hcount i
      rw [if_pos rfl] at hself
      have hlt := hts i
    · have hzero : ts.count (.thread i) = 0 := UpdateStage.afterTurns_eq_start.1 hs.symm
      rw [← unwritten_set hdto (hother i rfl), hself, hzero]
      exact hn
    · obtain ⟨hone, rfl⟩ := UpdateStage.afterTurns_eq_fetched.1 hs.symm
      rw [← unwritten_set hdto (hother i rfl), hself, hone]
      exact hn
    · obtain ⟨htwo, -⟩ := UpdateStage.afterTurns_eq_writing.1 hs.symm
      omega

/-- The call has read `q` first, or will: then it has not begun, `q` is stored, and no other call has anything left to do. -/
def MergesWith (ls : List (UpdatePreferencesDto × UpdateStage)) (p : Preferences) (k : Nat) (dto : UpdatePreferencesDto) (q : Preferences) :
    Prop :=
  (ls[k]? = some (dto, .start) ∧ p = q ∧ ∀ j, j ≠ k → ∀ l, ls[j]? = some l → ∃ answer, l.2 = .written answer) ∨
    ls[k]? = some (dto, .fetched q) ∨ ls[k]? = some (dto, .writing q) ∨ ∃ answer, ls[k]? = some (dto, .written answer)

variable {k : Nat} {dto : UpdatePreferencesDto} {q : Preferences} {ts : List (Turn Empty)}

/-- One turn of the two calls keeps that the second merges with what the first has left. -/
theorem MergesWith.turn (h : CallsAt userId ls p m) (hk : MergesWith ls p k dto q) (ht : updating m t = .ok n) :
    ∃ ls' p', CallsAt userId ls' p' n ∧ MergesWith ls' p' k dto q := by
  obtain ⟨i, dto', rfl, hturn⟩ := h.turn ht
  have hlt : k < ls.length := by
    obtain ⟨hk, -⟩ | hk | hk | ⟨_, hk⟩ := hk <;> exact (List.getElem?_eq_some_iff.1 hk).1
  by_cases hik : i = k
  · subst hik
    obtain ⟨hi, hn⟩ | ⟨q', hi, hn⟩ | ⟨q', answer, hi, hn⟩ := hturn
    · refine ⟨_, _, hn, ?_⟩
      simp only [MergesWith, hi, Option.some.injEq, Prod.mk.injEq, reduceCtorEq, and_false, exists_false, or_false] at hk
      obtain ⟨⟨rfl, -⟩, rfl, -⟩ := hk
      exact .inr (.inl (List.getElem?_set_self hlt))
    · refine ⟨_, _, hn, ?_⟩
      simp only [MergesWith, hi, Option.some.injEq, Prod.mk.injEq, reduceCtorEq, and_false, false_and, false_or, exists_false, or_false,
        UpdateStage.fetched.injEq] at hk
      obtain ⟨rfl, rfl⟩ := hk
      exact .inr (.inr (.inl (List.getElem?_set_self hlt)))
    · refine ⟨_, _, hn, ?_⟩
      simp only [MergesWith, hi, Option.some.injEq, Prod.mk.injEq, reduceCtorEq, and_false, false_and, false_or, exists_false, or_false,
        UpdateStage.writing.injEq] at hk
      obtain ⟨rfl, rfl⟩ := hk
      exact .inr (.inr (.inr ⟨answer, List.getElem?_set_self hlt⟩))
  · -- The turn of another call leaves this one where it is.
    have hother : ∀ (ls' : List (UpdatePreferencesDto × UpdateStage)) (p' : Preferences) (s : UpdateStage), ls[i]? = some (dto', s) →
        (∀ answer, s ≠ .written answer) → (∃ l, ls' = ls.set i l) → MergesWith ls' p' k dto q := by
      rintro ls' p' s hi hs ⟨l, rfl⟩
      unfold MergesWith
      rw [List.getElem?_set_ne hik]
      obtain ⟨-, -, hall⟩ | hk := hk
      · obtain ⟨answer, ha⟩ := hall i hik _ hi
        exact absurd ha (hs answer)
      · exact .inr hk
    obtain ⟨hi, hn⟩ | ⟨q', hi, hn⟩ | ⟨q', answer, hi, hn⟩ := hturn
    · exact ⟨_, _, hn, hother _ _ _ hi (by simp) ⟨_, rfl⟩⟩
    · exact ⟨_, _, hn, hother _ _ _ hi (by simp) ⟨_, rfl⟩⟩
    · exact ⟨_, _, hn, hother _ _ _ hi (by simp) ⟨_, rfl⟩⟩

/-- A call that has not written has not ended. -/
theorem CallsAt.not_finished (h : CallsAt userId ls p m) {l : UpdatePreferencesDto × UpdateStage} (hk : ls[k]? = some l)
    (hl : ∀ answer, l.2 ≠ .written answer) : ¬ m.Finished := by
  intro hf
  have hmem : callProgram userId l ∈ m.threads := by
    rw [h.labelled]
    exact List.mem_map_of_mem (List.mem_of_getElem? hk)
  have hend := hf _ hmem
  obtain ⟨dto, s⟩ := l
  cases s with
  | written answer => exact hl answer rfl
  | _ => cases hend

/-- The call that takes the last turn of all stores what it has read first, merged with its request. -/
theorem stored_by_last (h : CallsAt userId ls p m) (hk : MergesWith ls p k dto q) (hr : run updating m (ts ++ [.thread k]) = .ok n)
    (hf : n.Finished) : n.store.preferencesOf userId = some (dto.merged q) := by
  obtain ⟨n', hr, ht⟩ := (run_snoc_ok _).1 hr
  obtain ⟨ls', p', h', hk'⟩ : ∃ ls' p', CallsAt userId ls' p' n' ∧ MergesWith ls' p' k dto q := by
    refine run_preserves updating (P := fun m => ∃ ls p, CallsAt userId ls p m ∧ MergesWith ls p k dto q) ?_ hr ⟨ls, p, h, hk⟩
    rintro m t n ⟨ls, p, h, hk⟩ ht
    exact hk.turn h ht
  obtain ⟨i, dto', hi, hturn⟩ := h'.turn ht
  cases hi
  obtain ⟨hi, hn⟩ | ⟨q', hi, hn⟩ | ⟨q', answer, hi, hn⟩ := hturn
  · have hlt := (List.getElem?_eq_some_iff.1 hi).1
    exact absurd hf (hn.not_finished (List.getElem?_set_self hlt) (by simp))
  · have hlt := (List.getElem?_eq_some_iff.1 hi).1
    exact absurd hf (hn.not_finished (List.getElem?_set_self hlt) (by simp))
  · simp only [MergesWith, hi, Option.some.injEq, Prod.mk.injEq, reduceCtorEq, and_false, false_and, false_or, exists_false, or_false,
      UpdateStage.writing.injEq] at hk'
    obtain ⟨rfl, rfl⟩ := hk'
    exact hn.stored

/-! ## Two calls -/

/-- The first three turns are of one call: it has ended before the other begins. -/
def OneAfterTheOther (ts : List (Turn Empty)) : Prop := ∃ i, ts.take 3 = List.replicate 3 (.thread i)

/-- The request sets what is stored already. -/
def UpdatePreferencesDto.ChangesNothing (dto : UpdatePreferencesDto) (old : Preferences) : Prop := dto.merged old = old

/-- The requests set disjoint types. -/
def SetApart (first second : UpdatePreferencesDto) : Prop := ∀ type, first.sets type = none ∨ second.sets type = none

/-- The preferences hold both updates, and what neither sets as it was. -/
structure BothKept (first second : UpdatePreferencesDto) (old new : Preferences) : Prop where
  ofFirst : ∀ type val, first.sets type = some val → new type = some (((old type).getD {}).spread val)
  ofSecond : ∀ type val, second.sets type = some val → new type = some (((old type).getD {}).spread val)
  others : ∀ type, first.sets type = none → second.sets type = none → new type = old type

namespace UpdatePreferencesDto

/-- A type that the body does not set keeps its preference. -/
theorem merged_of_none {dto : UpdatePreferencesDto} {type : String} (h : dto.sets type = none) (old : Preferences) :
    dto.merged old type = old type := by
  rw [merged, h]

/-- A type that the body sets takes its fields over the old ones. -/
theorem merged_of_some {dto : UpdatePreferencesDto} {type : String} {val : PerTypePreference} (h : dto.sets type = some val)
    (old : Preferences) : dto.merged old type = some (((old type).getD {}).spread val) := by
  rw [merged, h]

end UpdatePreferencesDto

open UpdatePreferencesDto

/-- A request sets its types to the same, whether the other is merged before it or not. -/
theorem SetApart.merged_comm {first second : UpdatePreferencesDto} (h : SetApart first second) (old : Preferences) :
    second.merged (first.merged old) = first.merged (second.merged old) := by
  funext type
  obtain hnone | hnone := h type
  · cases hs : second.sets type with
    | none => rw [merged_of_none hs, merged_of_none hnone, merged_of_none hnone, merged_of_none hs]
    | some val => rw [merged_of_some hs, merged_of_none hnone, merged_of_none hnone, merged_of_some hs]
  · cases hf : first.sets type with
    | none => rw [merged_of_none hnone, merged_of_none hf, merged_of_none hf, merged_of_none hnone]
    | some val => rw [merged_of_none hnone, merged_of_some hf, merged_of_some hf, merged_of_none hnone]

/-- For bodies set apart, both are kept exactly when the one is merged with the other. -/
theorem SetApart.bothKept_iff {first second : UpdatePreferencesDto} (h : SetApart first second) {old new : Preferences} :
    BothKept first second old new ↔ new = second.merged (first.merged old) := by
  constructor
  · intro hk
    funext type
    cases hf : first.sets type with
    | some val =>
      have hs : second.sets type = none := (h type).resolve_left (by rw [hf]; simp)
      rw [hk.ofFirst type val hf, merged_of_none hs, merged_of_some hf]
    | none =>
      cases hs : second.sets type with
      | some val => rw [hk.ofSecond type val hs, merged_of_some hs, merged_of_none hf]
      | none => rw [hk.others type hf hs, merged_of_none hs, merged_of_none hf]
  · rintro rfl
    refine ⟨fun type val hf => ?_, fun type val hs => ?_, fun type hf hs => ?_⟩
    · have hs : second.sets type = none := (h type).resolve_left (by rw [hf]; simp)
      rw [merged_of_none hs, merged_of_some hf]
    · have hf : first.sets type = none := (h type).resolve_right (by rw [hs]; simp)
      rw [merged_of_some hs, merged_of_none hf]
    · rw [merged_of_none hs, merged_of_none hf]

/-- A request that is lost is missed, unless it changes nothing. -/
theorem SetApart.merged_eq_iff {first second : UpdatePreferencesDto} (h : SetApart first second) {old : Preferences} :
    first.merged old = second.merged (first.merged old) ↔ second.ChangesNothing old := by
  constructor
  · intro he
    funext type
    cases hs : second.sets type with
    | none => rw [merged_of_none hs]
    | some val =>
      have hf : first.sets type = none := (h type).resolve_right (by rw [hs]; simp)
      have := congrFun he type
      rw [merged_of_none hf, merged_of_some hs, merged_of_none hf] at this
      rw [merged_of_some hs, ← this]
  · intro hn
    rw [h.merged_comm, show second.merged old = old from hn]

variable {db : PreferencesDb} {first second : UpdatePreferencesDto}

/-- A schedule of two calls takes turns of the two. -/
theorem turn_of_two (hr : run updating (preferencesCalls db userId [first, second]) ts = .ok n) (ht : t ∈ ts) :
    t = .thread 0 ∨ t = .thread 1 := by
  cases t with
  | event e => cases e
  | thread i =>
    have hlt : i < 2 := Interleaving.lt_of_mem_turns hr ht
    obtain rfl | rfl : i = 0 ∨ i = 1 := by omega
    · exact .inl rfl
    · exact .inr rfl

/-- Every turn is one of the two calls'. -/
theorem count_of_two (hr : run updating (preferencesCalls db userId [first, second]) ts = .ok n) :
    ts.count (.thread 0) + ts.count (.thread 1) = ts.length := by
  have hall : ∀ t ∈ ts, t = .thread 0 ∨ t = .thread 1 := fun t ht => turn_of_two hr ht
  clear hr
  induction ts with
  | nil => rfl
  | cons t ts ih =>
    have hrest := ih fun t ht => hall t (List.mem_cons_of_mem _ ht)
    obtain rfl | rfl := hall t (List.mem_cons_self ..)
    · simp only [List.count_cons, beq_self_eq_true, if_true, List.length_cons]
      simp
      omega
    · simp only [List.count_cons, beq_self_eq_true, if_true, List.length_cons]
      simp
      omega

/-- What is stored after a schedule in which both calls end, when the call with the last turn has read `q` after `past`. -/
theorem stored_after {past : List (Turn Empty)} (hr : run updating (preferencesCalls db userId [first, second]) (past ++ ts) = .ok n)
    (hf : n.Finished) (hm : run updating (preferencesCalls db userId [first, second]) past = .ok m) (h : CallsAt userId ls p m)
    (hopen : ∃ l ∈ ls, ∀ answer, l.2 ≠ .written answer) :
    ∃ k < 2, (past ++ ts).getLast? = some (.thread k) ∧ .thread k ∈ ts ∧
      ∀ dto q, MergesWith ls p k dto q → n.store.preferencesOf userId = some (dto.merged q) := by
  have hrest : run updating m ts = .ok n := by
    obtain ⟨m', hm', hrest⟩ := (run_append_ok _).1 hr
    rw [hm, Except.ok.injEq] at hm'
    exact hm' ▸ hrest
  rcases List.eq_nil_or_concat ts with rfl | ⟨init, t, rfl⟩
  · obtain ⟨l, hl, hnot⟩ := hopen
    obtain ⟨k, hk⟩ := List.mem_iff_getElem?.1 hl
    cases hrest
    exact absurd hf (h.not_finished hk hnot)
  · rw [List.concat_eq_append] at hr hrest ⊢
    obtain ⟨k, hk, rfl⟩ : ∃ k < 2, t = .thread k := by
      obtain rfl | rfl := turn_of_two hr (t := t) (by simp)
      · exact ⟨0, by omega, rfl⟩
      · exact ⟨1, by omega, rfl⟩
    refine ⟨k, hk, by simp, by simp, fun dto q hmerge => stored_by_last h hmerge hrest hf⟩

/-- Where the first three turns are not of one call, both have read what was stored in the beginning. -/
theorem overlapping_stored (hold : db.preferencesOf userId = some old)
    (hr : run updating (preferencesCalls db userId [first, second]) ts = .ok n) (hf : n.Finished) (ho : ¬ OneAfterTheOther ts) :
    (ts.getLast? = some (.thread 0) ∧ n.store.preferencesOf userId = some (first.merged old)) ∨
      (ts.getLast? = some (.thread 1) ∧ n.store.preferencesOf userId = some (second.merged old)) := by
  obtain ⟨m, hm, hrest⟩ := (run_append_ok _).1 (by rwa [List.take_append_drop 3 ts] : run updating _ (ts.take 3 ++ ts.drop 3) = .ok n)
  have hlen : (ts.take 3).length ≤ 3 := List.length_take_le ..
  have hcount : ∀ i, (ts.take 3).count (.thread i) < 3 := by
    intro i
    by_contra hge
    have hle : (ts.take 3).count (.thread i) ≤ (ts.take 3).length := List.count_le_length
    have hall := List.count_eq_length.1 (show (ts.take 3).count (.thread i) = (ts.take 3).length by omega)
    exact ho ⟨i, List.eq_replicate_iff.2 ⟨by omega, fun t ht => (hall t ht).symm⟩⟩
  have h := callsAt_unwritten hold hm hcount
  -- Three turns, fewer than three of each call: both calls have taken one at least.
  have hopen : ∃ l ∈ unwritten old [first, second] fun i => (ts.take 3).count (.thread i), ∀ answer, l.2 ≠ .written answer :=
    ⟨_, List.mem_cons_self .., fun answer => UpdateStage.afterTurns_ne_written⟩
  obtain ⟨k, hk, hlast, hin, hstored⟩ := stored_after (by rwa [List.take_append_drop]) hf hm h hopen
  rw [List.take_append_drop] at hlast
  have hthree : (ts.take 3).length = 3 := by
    rw [List.length_take_of_le]
    have := List.length_pos_of_mem hin
    rw [List.length_drop] at this
    omega
  have hsum : (ts.take 3).count (.thread 0) + (ts.take 3).count (.thread 1) = 3 := (count_of_two hm).trans hthree
  have hmerge : ∀ i dto, [first, second][i]? = some dto → 0 < (ts.take 3).count (.thread i) →
      MergesWith (unwritten old [first, second] fun i => (ts.take 3).count (.thread i)) old i dto old := by
    intro i dto hdto hpos
    have hi : (unwritten old [first, second] fun i => (ts.take 3).count (.thread i))[i]? =
        some (dto, .afterTurns old ((ts.take 3).count (.thread i))) := unwritten_getElem?.2 ⟨dto, hdto, rfl⟩
    have hlt := hcount i
    obtain hone | htwo : (ts.take 3).count (.thread i) = 1 ∨ (ts.take 3).count (.thread i) = 2 := by omega
    · exact .inr (.inl (by rw [hi, hone]; rfl))
    · exact .inr (.inr (.inl (by rw [hi, htwo]; rfl)))
  have h0 := hcount 0
  have h1 := hcount 1
  obtain rfl | rfl : k = 0 ∨ k = 1 := by omega
  · exact .inl ⟨hlast, hstored _ _ (hmerge 0 first rfl (by omega))⟩
  · exact .inr ⟨hlast, hstored _ _ (hmerge 1 second rfl (by omega))⟩

/-- Three turns of one call: it has ended, and the other has not begun. -/
theorem callsAt_after_three (hold : db.preferencesOf userId = some old) {i j : Nat} (hij : i ≠ j)
    (hm : run updating (preferencesCalls db userId [first, second]) ([.thread i, .thread i] ++ [.thread i]) = .ok m)
    {dto dto' : UpdatePreferencesDto} (hi : [first, second][i]? = some dto) (hj : [first, second][j]? = some dto') :
    ∃ ls answer, CallsAt userId ls (dto.merged old) m ∧ ls.length = 2 ∧ ls[i]? = some (dto, .written answer) ∧
      ls[j]? = some (dto', .start) := by
  obtain ⟨m₂, hm₂, hthird⟩ := (run_snoc_ok _).1 hm
  have hcount : ∀ k, ([.thread i, .thread i] : List (Turn Empty)).count (.thread k) = if i = k then 2 else 0 := by
    intro k
    by_cases hik : i = k <;> simp [hik]
  have h₂ := callsAt_unwritten hold hm₂ fun k => by
    rw [hcount]
    split <;> omega
  simp only [hcount] at h₂
  have hthis : (unwritten old [first, second] fun k => if i = k then 2 else 0)[i]? = some (dto, .writing old) :=
    unwritten_getElem?.2 ⟨dto, hi, by simp [UpdateStage.afterTurns]⟩
  have hthat : (unwritten old [first, second] fun k => if i = k then 2 else 0)[j]? = some (dto', .start) :=
    unwritten_getElem?.2 ⟨dto', hj, by simp [hij, UpdateStage.afterTurns]⟩
  have hlen : (unwritten old [first, second] fun k => if i = k then 2 else 0).length = 2 := by simp [unwritten]
  -- The third turn writes.
  obtain ⟨i', dto₂, hi', hturn⟩ := h₂.turn hthird
  cases hi'
  rw [hthis] at hturn
  simp only [Option.some.injEq, Prod.mk.injEq, reduceCtorEq, and_false, false_and, exists_false, false_or, UpdateStage.writing.injEq]
    at hturn
  obtain ⟨old', answer, ⟨rfl, rfl⟩, h⟩ := hturn
  refine ⟨_, answer, h, by rw [List.length_set, hlen], List.getElem?_set_self ?_, ?_⟩
  · exact (List.getElem?_eq_some_iff.1 hthis).1
  · rw [List.getElem?_set_ne hij, hthat]

/-- Where the first three turns are of one call, the other reads what that has written. -/
theorem serial_stored (hold : db.preferencesOf userId = some old)
    (hr : run updating (preferencesCalls db userId [first, second]) ts = .ok n) (hf : n.Finished) {i j : Nat} (hij : i ≠ j)
    (hts : ts.take 3 = List.replicate 3 (.thread i)) {dto dto' : UpdatePreferencesDto} (hi : [first, second][i]? = some dto)
    (hj : [first, second][j]? = some dto') : n.store.preferencesOf userId = some (dto'.merged (dto.merged old)) := by
  have hi2 : i < 2 := (List.getElem?_eq_some_iff.1 hi).1
  have hj2 : j < 2 := (List.getElem?_eq_some_iff.1 hj).1
  have hsplit : ts = ([.thread i, .thread i] ++ [.thread i]) ++ ts.drop 3 := by
    rw [show ([.thread i, .thread i] ++ [.thread i] : List (Turn Empty)) = ts.take 3 from hts.symm, List.take_append_drop]
  rw [hsplit] at hr
  obtain ⟨m, hm, hrest⟩ := (run_append_ok _).1 hr
  obtain ⟨ls, answer, h, hlen, hwritten, hstart⟩ := callsAt_after_three hold hij hm hi hj
  obtain ⟨k, hk, -, hin, hstored⟩ := stored_after hr hf hm h ⟨_, List.mem_of_getElem? hstart, by simp⟩
  have hki : k ≠ i := by
    rintro rfl
    refine Interleaving.not_mem_turns_of_ret (i := k) (a := answer) ?_ hrest hin
    rw [h.labelled, List.getElem?_map, hwritten]
    rfl
  obtain rfl : k = j := by omega
  refine hstored dto' _ (.inl ⟨hstart, rfl, fun j' hj' l hl => ?_⟩)
  have hlt := (List.getElem?_eq_some_iff.1 hl).1
  rw [hlen] at hlt
  obtain rfl : j' = i := by omega
  rw [hwritten, Option.some.injEq] at hl
  exact ⟨answer, by rw [← hl]⟩

/-- Both updates are kept exactly where one call ends before the other begins, or where the one that writes first sets what is stored
already: else the call with the last turn writes back what it has read before the other wrote. -/
theorem both_updates_kept_iff (hold : db.preferencesOf userId = some old) (hd : SetApart first second)
    (hr : run updating (preferencesCalls db userId [first, second]) ts = .ok n) (hf : n.Finished) :
    (∃ new, n.store.preferencesOf userId = some new ∧ BothKept first second old new) ↔
      OneAfterTheOther ts ∨ (ts.getLast? = some (.thread 0) ∧ second.ChangesNothing old) ∨
        (ts.getLast? = some (.thread 1) ∧ first.ChangesNothing old) := by
  have hd' : SetApart second first := fun type => (hd type).symm
  simp only [hd.bothKept_iff]
  by_cases ho : OneAfterTheOther ts
  · refine iff_of_true ⟨_, ?_, rfl⟩ (.inl ho)
    obtain ⟨i, hts⟩ := ho
    have hmem : .thread i ∈ ts.take 3 := by
      rw [hts]
      exact List.mem_cons_self ..
    have hlt : i < 2 := Interleaving.lt_of_mem_turns hr (List.mem_of_mem_take hmem)
    obtain rfl | rfl : i = 0 ∨ i = 1 := by omega
    · exact serial_stored hold hr hf Nat.zero_ne_one hts rfl rfl
    · rw [hd.merged_comm]
      exact serial_stored hold hr hf Nat.one_ne_zero hts rfl rfl
  · obtain ⟨hlast, hn⟩ | ⟨hlast, hn⟩ := overlapping_stored hold hr hf ho
    · simp [ho, hlast, hn, hd.merged_eq_iff]
    · simp [ho, hlast, hn, hd.merged_comm, hd'.merged_eq_iff]

/-- A user with a row in which nothing is set yet. -/
def Sample.preferences : PreferencesDb :=
  { users := [.given 3], rows := [{ userId := .given 3, emailEnabled := true, inAppEnabled := true, preferences := fun _ => none }] }

/-- The request that turns the mails of one type off. -/
def Sample.noMail (type : String) : UpdatePreferencesDto :=
  { preferences := some fun key => if key = type then some { email := some false } else none }

/-- The two types of the sample are set apart. -/
theorem Sample.noMail_apart : SetApart (noMail "review") (noMail "upload") := by
  intro type
  by_cases h : type = "review"
  · subst h
    exact .inr rfl
  · exact .inl (if_neg h)

/-- Both calls read, then both write. -/
def Sample.overlapping : List (Turn Empty) := [.thread 0, .thread 0, .thread 1, .thread 1, .thread 0, .thread 1]

/-- Two calls that overlap, and the one update that is left. -/
theorem both_updates_kept_iff_sample :
    ∃ n, run updating (preferencesCalls Sample.preferences (.given 3) [Sample.noMail "review", Sample.noMail "upload"])
        Sample.overlapping = .ok n ∧
      ((∃ new, n.store.preferencesOf (.given 3) = some new ∧
          BothKept (Sample.noMail "review") (Sample.noMail "upload") (fun _ => none) new) ↔
        OneAfterTheOther Sample.overlapping ∨
          (Sample.overlapping.getLast? = some (.thread 0) ∧ (Sample.noMail "upload").ChangesNothing fun _ => none) ∨
          (Sample.overlapping.getLast? = some (.thread 1) ∧ (Sample.noMail "review").ChangesNothing fun _ => none)) :=
  ⟨_, rfl, @both_updates_kept_iff (.given 3) _ _ _ Sample.preferences _ _ rfl Sample.noMail_apart rfl (by decide)⟩

/-- The second call writes back what it has read before the first wrote: the mails of the first's type are on again. -/
theorem first_update_lost :
    ∃ n, run updating (preferencesCalls Sample.preferences (.given 3) [Sample.noMail "review", Sample.noMail "upload"])
        Sample.overlapping = .ok n ∧ n.Finished ∧
      ∃ new, n.store.preferencesOf (.given 3) = some new ∧ new "review" = none ∧ new "upload" = some { email := some false } ∧
        ¬ ∃ new, n.store.preferencesOf (.given 3) = some new ∧
          BothKept (Sample.noMail "review") (Sample.noMail "upload") (fun _ => none) new := by
  refine ⟨_, rfl, by decide, _, rfl, rfl, rfl, ?_⟩
  rintro ⟨new, hnew, hk⟩
  cases hnew
  cases hk.ofFirst "review" { email := some false } rfl

end BrineVault
