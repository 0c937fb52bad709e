import BrineVault.Api.Answers

/-!
# Looking a session up by the hash of its token

`getSessionByRefreshHash` reads the keys of `session:*` page by page, and the values of each page after its keys. What is there all the time is on
some page; what expires in between may be missed.
-/

namespace BrineVault

open Interleaving
open SessionService

/-! ## Keys and ids -/

/-- `text.replace(pattern, '')`: the first occurrence goes. -/
def withoutFirst (pattern : List Char) : List Char → List Char
  | [] => []
  | c :: text => if pattern.isPrefixOf (c :: text) then (c :: text).drop pattern.length else c :: withoutFirst pattern text

/-- The key of a session. -/
def sessionKey (sid : Sid) : String := "session:" ++ sid

/-- The id that is read off a key. -/
def idOfKey (key : String) : Sid := String.ofList (withoutFirst "session:".toList key.toList)

/-- The id is the session's own, whatever it is. -/
theorem idOfKey_sessionKey (sid : Sid) : idOfKey (sessionKey sid) = sid := by
  have hprefix : "session:".toList.isPrefixOf ("session:".toList ++ sid.toList) = true :=
    List.isPrefixOf_iff_prefix.2 (List.prefix_append _ _)
  have hdrop : withoutFirst "session:".toList ("session:".toList ++ sid.toList) = sid.toList := by
    change (if "session:".toList.isPrefixOf ("session:".toList ++ sid.toList) then _ else _) = _
    rw [if_pos hprefix]
    rfl
  rw [idOfKey, sessionKey, String.toList_append, hdrop, String.ofList_toList]

/-! ## The pages -/

/-- The keys that an iteration answers, with their repetitions. -/
def Scan.keys : Scan → List Sid
  | .last keys => keys
  | .more keys rest => keys ++ rest.keys

/-- An iteration between two states of the backend answers every key that is there all the time. -/
def Scan.Complete (scan : Scan) (b b' : Backend) : Prop :=
  ∀ sid, (∃ data, b.session sid = some data) → (∃ data, b'.session sid = some data) → sid ∈ scan.keys

variable {hash : String} {b : Backend}

/-- A page without a match shows no session with the hash. -/
theorem ends_scanPage_missed (page : List Sid) :
    Ends (scanPage hash page) (fun r b' => b.Later b' ∧
      (r = .ok none → ∀ sid ∈ page, ∀ data, b'.session sid = some data → data.refreshTokenHash ≠ hash)) b := by
  simp only [scanPage, Prog.send_bind, ends_scan]
  intro t₁
  split
  · rename_i hnil
    refine ⟨b.later_elapse t₁, fun _ sid hsid => ?_⟩
    rw [hnil] at hsid
    cases hsid
  · refine ends_mget.2 fun t₂ => ?_
    refine ⟨(b.later_elapse t₁).trans (Backend.later_elapse _ t₂), fun hr sid hsid data hdata => ?_⟩
    have hmiss : findInPage hash page (page.map ((b.elapse t₁).elapse t₂).session) = none := Except.ok.inj hr
    have hshown : (sid, some data) ∈ page.zip (page.map ((b.elapse t₁).elapse t₂).session) := by
      obtain ⟨i, hi⟩ := List.mem_iff_getElem?.1 hsid
      refine List.mem_of_getElem? (i := i) ?_
      rw [List.getElem?_zip_eq_some, List.getElem?_map, hi]
      exact ⟨rfl, congrArg some hdata⟩
    exact findInPage_eq_none hmiss hshown

/-- The loop answers null only when no page showed the hash. -/
theorem ends_getSessionByRefreshHash_missed (scan : Scan) :
    Ends (getSessionByRefreshHash hash scan) (fun r b' => b.Later b' ∧
      (r = .ok none → ∀ sid ∈ scan.keys, ∀ data, b'.session sid = some data → data.refreshTokenHash ≠ hash)) b := by
  induction scan generalizing b with
  | last keys => exact ends_scanPage_missed keys
  | more keys rest ih =>
    refine (ends_scanPage_missed keys).bind ?_ ?_
    · rintro o b₁ ⟨hlater, hfirst⟩
      cases o with
      | some found => exact ⟨hlater, fun hr => by cases hr⟩
      | none =>
        refine ih.mono ?_
        rintro r b' ⟨hlater', hrest⟩
        refine ⟨hlater.trans hlater', fun hr sid hsid data hdata => ?_⟩
        obtain hsid | hsid := List.mem_append.1 hsid
        · exact hfirst rfl sid hsid data (hlater'.session hdata)
        · exact hrest hr sid hsid data hdata
    · rintro e b₁ ⟨hlater, _⟩
      exact ⟨hlater, fun hr => by cases hr⟩

/-- Without concurrent writes the lookup never fails. It answers a session that has the hash, with its own id, when there is one all the time, and
null when there is none. -/
theorem refresh_hash_lookup_exact (hash : String) (scan : Scan) (b : Backend) (waits : List Nat)
    (hscan : scan.Complete b (runAlone (getSessionByRefreshHash hash scan) b waits).2) :
    ∃ found, (runAlone (getSessionByRefreshHash hash scan) b waits).1 = .ok found ∧
      (∀ sid data, found = some (sid, data) →
        b.session sid = some data ∧ data.refreshTokenHash = hash ∧ idOfKey (sessionKey sid) = sid) ∧
      ((∃ sid data, (runAlone (getSessionByRefreshHash hash scan) b waits).2.session sid = some data ∧ data.refreshTokenHash = hash) →
        found.isSome = true) ∧
      ((∀ sid data, b.session sid = some data → data.refreshTokenHash ≠ hash) → found = none) := by
  obtain ⟨hlater, found, hr, hfound⟩ := runAlone_of_ends (ends_getSessionByRefreshHash hash scan b) waits
  obtain ⟨_, hmissed⟩ := runAlone_of_ends (@ends_getSessionByRefreshHash_missed hash b scan) waits
  refine ⟨found, hr, ?_, ?_, ?_⟩
  · intro sid data he
    obtain ⟨hdata, hhash⟩ := hfound sid data he
    exact ⟨hdata, hhash, idOfKey_sessionKey sid⟩
  · rintro ⟨sid, data, hdata, hhash⟩
    cases found with
    | some _ => rfl
    | none =>
      have hmem : sid ∈ scan.keys := hscan sid ⟨data, hlater.session hdata⟩ ⟨data, hdata⟩
      exact absurd hhash (hmissed hr sid hmem data hdata)
  · intro hno
    cases found with
    | none => rfl
    | some found =>
      obtain ⟨hdata, hhash⟩ := hfound found.1 found.2 rfl
      exact absurd hhash (hno _ _ hdata)

namespace Sample

/-- An empty page, a page with a key that is gone, and the session's key twice. -/
def scan : Scan := .more [] (.more ["gone", "s"] (.last ["s"]))

/-- The sample store has one session. -/
theorem backend_session {sid : Sid} {data : SessionData} (h : backend.session sid = some data) : sid = "s" := by
  obtain ⟨e, he, _⟩ := Option.map_eq_some_iff.1 h
  have hstored := (Redis.Keyspace.live_eq_some.1 he).1
  by_contra hne
  simp only [backend, if_neg hne] at hstored
  cases hstored

end Sample

/-- The lookup in the sample store finds it by the hash of its token. -/
theorem refresh_hash_lookup_exact_sample :
    Sample.scan.Complete Sample.backend
        (runAlone (getSessionByRefreshHash (Sample.crypto.sha256 "1") Sample.scan) Sample.backend [1, 2, 3]).2 ∧
      ∃ found, (runAlone (getSessionByRefreshHash (Sample.crypto.sha256 "1") Sample.scan) Sample.backend [1, 2, 3]).1 = .ok found ∧
        found = some ("s", Sample.session) := by
  have hscan : Sample.scan.Complete Sample.backend
      (runAlone (getSessionByRefreshHash (Sample.crypto.sha256 "1") Sample.scan) Sample.backend [1, 2, 3]).2 := by
    rintro sid ⟨data, hdata⟩ _
    rw [Sample.backend_session hdata]
    decide
  obtain ⟨found, hr, hown, hfound, _⟩ :=
    refresh_hash_lookup_exact (Sample.crypto.sha256 "1") Sample.scan Sample.backend [1, 2, 3] hscan
  refine ⟨hscan, found, hr, ?_⟩
  have hsome := hfound ⟨"s", Sample.session, by decide +kernel, rfl⟩
  obtain ⟨⟨sid, data⟩, rfl⟩ := Option.isSome_iff_exists.1 hsome
  obtain ⟨hdata, _, _⟩ := hown sid data rfl
  obtain rfl : sid = "s" := Sample.backend_session hdata
  have hsession : Sample.backend.session "s" = some Sample.session := by decide +kernel
  rw [hsession, Option.some.injEq] at hdata
  rw [hdata]

end BrineVault
