import BrineVault.Indexer.DocumentCache

/-!
# Consistent tables

What the unique constraints of the tables promise, and what the writes of the indexer add to them: the ids that are drawn for pools and
rooms name their objects, and a member is in the pool of its room.
-/

namespace BrineVault

open Statements (act actAll)

namespace Db

structure Consistent (db : Db) : Prop where
  pools : (db.pools.map PoolRow.suiObjectId).Nodup
  poolIds : (db.pools.map PoolRow.id).Nodup
  poolsNamed : db.PoolsNamed
  roomIds : (db.datarooms.map DataroomRow.id).Nodup
  roomsNamed : ∀ r ∈ db.datarooms, ∀ k, r.id = .dataroom k → r.suiObjectId = k
  documents : (db.documents.map DocumentRow.suiObjectId).Nodup
  members : (db.members.map MemberRow.key).Nodup
  memberRooms : ∀ m ∈ db.members, ∃ r ∈ db.datarooms, r.id = m.dataroomId ∧ r.poolId = m.poolId

/-- Empty tables are consistent. -/
theorem consistent_empty (organizations : List Uuid) : (empty organizations).Consistent := by
  constructor <;> simp [empty, PoolsNamed]

/-- What a row that is inserted has to bring. -/
def Suits (db : Db) : Stmt → Prop
  | .insertPool row => row.id = .pool row.suiObjectId
  | .insertDataroom row => row.id = .dataroom row.suiObjectId
  | .upsertMember row => ∃ r ∈ db.datarooms, r.id = row.dataroomId ∧ r.poolId = row.poolId
  | _ => True

/-- Each of several statements brings it. -/
def SuitsAll (db : Db) : List Stmt → Prop
  | [] => True
  | stmt :: stmts => db.Suits stmt ∧ SuitsAll (Stmt.act db stmt) stmts

namespace Consistent

variable {db : Db}

/-- A pool inserted under its own id keeps the tables consistent. -/
theorem insertPool {row : PoolRow} (h : db.Consistent) (hid : row.id = .pool row.suiObjectId) :
    (Stmt.act db (.insertPool row)).Consistent where
  pools := Rows.nodup_insertNew h.pools Rows.not_mem_map_of_has
  poolIds := by
    refine Rows.nodup_insertNew h.poolIds fun hnew hmem => ?_
    -- A row with the drawn id is a row of the same pool.
    obtain ⟨r, hr, he⟩ := List.mem_map.1 hmem
    exact Rows.has_eq_false_iff.1 hnew r hr (h.poolsNamed r hr _ (he.trans hid))
  poolsNamed := by
    intro r hr k hk
    obtain hr | rfl := Rows.mem_insertNew hr
    · exact h.poolsNamed r hr k hk
    · exact Uuid.pool.inj (hid.symm.trans hk)
  roomIds := h.roomIds
  roomsNamed := h.roomsNamed
  documents := h.documents
  members := h.members
  memberRooms := h.memberRooms

/-- A room inserted under its own id keeps the tables consistent. -/
theorem insertDataroom {row : DataroomRow} (h : db.Consistent) (hid : row.id = .dataroom row.suiObjectId) :
    (Stmt.act db (.insertDataroom row)).Consistent where
  pools := h.pools
  poolIds := h.poolIds
  poolsNamed := h.poolsNamed
  roomIds := by
    refine Rows.nodup_insertNew h.roomIds fun hnew hmem => ?_
    obtain ⟨r, hr, he⟩ := List.mem_map.1 hmem
    exact Rows.has_eq_false_iff.1 hnew r hr (h.roomsNamed r hr _ (he.trans hid))
  roomsNamed := by
    intro r hr k hk
    obtain hr | rfl := Rows.mem_insertNew hr
    · exact h.roomsNamed r hr k hk
    · exact Uuid.dataroom.inj (hid.symm.trans hk)
  documents := h.documents
  members := h.members
  memberRooms := by
    intro m hm
    obtain ⟨r, hr, hrm⟩ := h.memberRooms m hm
    exact ⟨r, Rows.subset_insertNew _ hr, hrm⟩

/-- An update of members that keeps their keys and their pools. -/
theorem updateMembers (h : db.Consistent) (k : Uuid × Address) (f : MemberRow → MemberRow) (hkey : ∀ r, (f r).key = r.key)
    (hpool : ∀ r, (f r).poolId = r.poolId) :
    { db with members := Rows.updateAt MemberRow.key k f db.members }.Consistent := by
  refine { h with members := ?_, memberRooms := ?_ }
  · rw [Rows.map_updateAt hkey]
    exact h.members
  · intro m hm
    obtain ⟨m₀, hm₀, rfl⟩ := List.mem_map.1 hm
    obtain ⟨r, hr, hroom, hrpool⟩ := h.memberRooms m₀ hm₀
    refine ⟨r, hr, ?_, ?_⟩
    · split
      · exact hroom.trans (congrArg Prod.fst (hkey m₀)).symm
      · exact hroom
    · split
      · exact hrpool.trans (hpool m₀).symm
      · exact hrpool

/-- A statement that suits consistent tables keeps them consistent. -/
theorem act {stmt : Stmt} (h : db.Consistent) (hs : db.Suits stmt) : (Stmt.act db stmt).Consistent := by
  cases stmt with
  | insertPool row => exact h.insertPool hs
  | updatePoolState k state digest =>
    refine { h with pools := ?_, poolIds := ?_, poolsNamed := ?_ }
    · rw [Stmt.act, Rows.map_updateAt (f := Stmt.setState state digest) fun _ => rfl]
      exact h.pools
    · rw [Stmt.act, Rows.map_updateAt (f := Stmt.setState state digest) fun _ => rfl]
      exact h.poolIds
    · intro r hr
      obtain ⟨r₀, hr₀, rfl⟩ := List.mem_map.1 hr
      have := h.poolsNamed r₀ hr₀
      split <;> exact this
  | insertDataroom row => exact h.insertDataroom hs
  | upsertMember row =>
    by_cases hh : Rows.has MemberRow.key row.key db.members = true
    · rw [Stmt.act, Rows.upsert, if_pos hh]
      exact h.updateMembers row.key (Stmt.setMember row.role row.addedByAddress) (fun _ => rfl) fun _ => rfl
    · rw [Stmt.act, Rows.upsert, if_neg hh]
      refine { h with members := ?_, memberRooms := ?_ }
      · have := Rows.nodup_insertNew (r := row) h.members Rows.not_mem_map_of_has
        rwa [Rows.insertNew, if_neg hh] at this
      · intro m hm
        obtain hm | rfl := (List.mem_append.1 hm).imp id List.mem_singleton.1
        · exact h.memberRooms m hm
        · exact hs
  | deactivateMember room a => exact h.updateMembers (room, a) (fun r => { r with isActive := false }) (fun _ => rfl) fun _ => rfl
  | updateMemberRole room a role => exact h.updateMembers (room, a) (fun r => { r with role }) (fun _ => rfl) fun _ => rfl
  | insertDocument row => exact { h with documents := Rows.nodup_insertNew h.documents Rows.not_mem_map_of_has }
  | updateVersionInfo k version =>
    refine { h with documents := ?_ }
    rw [Stmt.act, Rows.map_updateAt (f := Stmt.setVersionInfo version) fun _ => rfl]
    exact h.documents
  | insertVersion | upsertReview | insertIcDecision | insertAudit => exact { h with }

/-- So do statements that suit the tables one after the other. -/
theorem actAll {stmts : List Stmt} (h : db.Consistent) (hs : db.SuitsAll stmts) : (Statements.actAll db stmts).Consistent := by
  induction stmts generalizing db with
  | nil => exact h
  | cons stmt stmts ih => exact ih (h.act hs.1) hs.2

end Consistent

end Db

/-- What a handler issues always suits the tables it has read. -/
theorem suitsAll_stmtsOf (ctx : EventId) (db : Db) (e : Event) : db.SuitsAll (stmtsOf ctx db e) := by
  cases e with
  | memberAdded dataroomId =>
    simp only [stmtsOf]
    split
    · trivial
    · rename_i r hr
      exact ⟨⟨r, (Rows.find_some hr).1, rfl, rfl⟩, trivial, trivial⟩
  | poolCreated => exact ⟨rfl, trivial, trivial⟩
  | dataRoomCreated => exact ⟨rfl, trivial, trivial⟩
  | _ =>
    simp only [stmtsOf]
    repeat' split
    all_goals simp [Db.SuitsAll, Db.Suits]

/-- Tables stay consistent, whatever the stream brings. -/
theorem Db.Consistent.afterEvents {db : Db} (h : db.Consistent) (es : List SuiEvent) : (afterEvents db es).Consistent := by
  induction es generalizing db with
  | nil => exact h
  | cons e es ih => exact ih (h.actAll (suitsAll_stmtsOf e.id db e.event))

end BrineVault
