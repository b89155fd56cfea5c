import Openraft.Basic

/-!
`LogIdList`: the compact index of the log's ids that `RaftState` answers
`get_log_id`, `last_log_id` and `last_purged_log_id` from.

# Representation

The type is declared outside `src/`; it is modelled from the spec (§2:
"compact representation of per-term log boundaries") and from what
`raft_state_test.rs` pins of it. The list holds key log ids in index
order: the first log id of every leader's run of entries, and the last
log id. The entry at index `i` belongs to the leader of the last key at
or below `i`, so `[(1,1), (3,4)]` stands for `(1,1), (1,2), (1,3), (3,4)`.
The first key is the last purged log id once a prefix was purged.

`get` is written against that reading (the source binary-searches the
keys; on keys in index order the answer is the same). A list is
`WellFormed` when its keys increase both as log ids and by index — the
shape every operation here keeps, and the one the purge proofs read
`get`'s monotonicity from.

# What the operations do

Read through `get`, the list is the log: `append` of the next index
answers that index with the id appended and leaves every other one
(`get_append`), and `truncate` keeps every index below the cut and answers
none from it on (`get_truncate`). Both need only the keys' indexes to
increase (`IndexSorted`), and keep that shape.
-/

namespace Openraft

/-- Modelled from the spec: the key log ids of the log, in index order. -/
structure LogIdList where
  keyLogIds : List LogId
  deriving Repr, DecidableEq

namespace LogIdList

/-- `LogIdList::first`: the first key (the last purged log id, if any was
purged). -/
def first (l : LogIdList) : WithBot LogId := l.keyLogIds.head?

/-- `LogIdList::last`: the last log id. -/
def last (l : LogIdList) : WithBot LogId := l.keyLogIds.getLast?

/-- `LogIdList::get`: the log id at `index` — the leader id of the last key
at or below `index` — when `index` is not past the last key. -/
def get (l : LogIdList) (index : Nat) : Option LogId :=
  match l.keyLogIds.getLast? with
  | none => none
  | some lst =>
    if index ≤ lst.index then
      ((l.keyLogIds.filter (·.index ≤ index)).getLast?).map fun k => LogId.new k.leaderId index
    else none

/-- `LogIdList::append`: record one more log id. The last key is moved
forward while the last run keeps its leader; a new key opens every other
case. -/
def append (l : LogIdList) (logId : LogId) : LogIdList :=
  match l.keyLogIds.reverse with
  | lst :: prev :: rest =>
    if prev.leaderId = lst.leaderId then ⟨(logId :: prev :: rest).reverse⟩
    else ⟨l.keyLogIds ++ [logId]⟩
  | _ => ⟨l.keyLogIds ++ [logId]⟩

/-- `LogIdList::truncate`: delete the log ids from `since` on. A key closes
the kept part of a run cut in the middle. -/
def truncate (l : LogIdList) (since : Nat) : LogIdList :=
  if l.keyLogIds.all (·.index < since) then l
  else
    let kept := l.keyLogIds.filter (·.index < since)
    match kept.getLast? with
    | some k => if k.index + 1 < since then ⟨kept ++ [LogId.new k.leaderId (since - 1)]⟩ else ⟨kept⟩
    | none => ⟨kept⟩

/-- `LogIdList::purge`: delete the log ids up to `upto`, which stays as the
first key; purging past the last log id leaves `upto` alone. -/
def purge (l : LogIdList) (upto : LogId) : LogIdList :=
  if l.keyLogIds.all (·.index ≤ upto.index) then ⟨[upto]⟩
  else
    match l.get upto.index with
    | none => l
    | some lid => ⟨lid :: l.keyLogIds.filter (upto.index < ·.index)⟩

/-- Keys increase both as log ids and by index. -/
def WellFormed (l : LogIdList) : Prop :=
  l.keyLogIds.Pairwise fun a b => a < b ∧ a.index < b.index

-- ====================================================== reading `get`

/-- What `get` answers carries the index it was asked for. -/
theorem get_index {l : LogIdList} {i : Nat} {x : LogId} (h : l.get i = some x) :
    x.index = i := by
  unfold get at h
  split at h
  · cases h
  · split at h
    · obtain ⟨k, -, rfl⟩ := Option.map_eq_some'.mp h
      rfl
    · cases h

/-- `get` answers every index from the first key to the last. -/
theorem get_isSome {l : LogIdList} {i : Nat} {f lst : LogId}
    (hf : l.first = f) (hl : l.last = lst) (h1 : f.index ≤ i) (h2 : i ≤ lst.index) :
    (l.get i).isSome := by
  have hl' : l.keyLogIds.getLast? = some lst := hl
  have hmem : f ∈ l.keyLogIds.filter (·.index ≤ i) :=
    List.mem_filter.mpr ⟨List.mem_of_mem_head? hf, by simpa using h1⟩
  have hne : (l.keyLogIds.filter (·.index ≤ i)).getLast? ≠ none := by
    rw [Ne, List.getLast?_eq_none_iff]
    exact List.ne_nil_of_mem hmem
  simp only [get, hl', if_pos h2]
  simpa [Option.isSome_iff_ne_none] using hne

/-- What `get` answers is the leader id of the last key at or below the
index, with the index. -/
theorem get_eq_some {l : LogIdList} {i : Nat} {x : LogId} (h : l.get i = some x) :
    (∃ lst, l.last = some lst ∧ i ≤ lst.index) ∧
      ∃ k, (l.keyLogIds.filter (·.index ≤ i)).getLast? = some k ∧ x = LogId.new k.leaderId i := by
  unfold get at h
  split at h
  · cases h
  · rename_i lst hlst
    split at h
    · obtain ⟨k, hk, rfl⟩ := Option.map_eq_some'.mp h
      exact ⟨⟨lst, hlst, by assumption⟩, k, hk, rfl⟩
    · cases h

/-- In a list ordered by `r`, every member is the last one or `r`-below it. -/
theorem eq_or_rel_getLast? {α : Type} {r : α → α → Prop} :
    ∀ {xs : List α} {x y : α}, xs.Pairwise r → x ∈ xs → xs.getLast? = some y → x = y ∨ r x y
  | [], _, _, _, hx, _ => absurd hx (List.not_mem_nil _)
  | [a], x, y, _, hx, hy => by
    simp only [List.mem_singleton] at hx
    simp only [List.getLast?_singleton, Option.some.injEq] at hy
    exact .inl (hx.trans hy)
  | a :: b :: rest, x, y, hp, hx, hy => by
    rw [List.getLast?_cons_cons] at hy
    have hpt := (List.pairwise_cons.mp hp)
    rcases List.mem_cons.mp hx with rfl | hx
    · exact .inr (hpt.1 y (List.mem_of_getLast?_eq_some hy))
    · exact eq_or_rel_getLast? hpt.2 hx hy

/-- A well-formed list answers indexes in log id order. -/
theorem get_mono {l : LogIdList} (hwf : l.WellFormed) {i j : Nat} {a b : LogId}
    (ha : l.get i = some a) (hb : l.get j = some b) (hij : i ≤ j) : a ≤ b := by
  obtain ⟨-, ki, hki, rfl⟩ := get_eq_some ha
  obtain ⟨-, kj, hkj, rfl⟩ := get_eq_some hb
  have hsorted {n : Nat} := hwf.filter (fun k : LogId => decide (k.index ≤ n))
  have hmem : ki ∈ l.keyLogIds.filter (·.index ≤ j) := by
    have := List.mem_filter.mp (List.mem_of_getLast?_eq_some hki)
    exact List.mem_filter.mpr ⟨this.1, by simpa using (of_decide_eq_true this.2).trans hij⟩
  rcases eq_or_rel_getLast? hsorted hmem hkj with rfl | ⟨hlt, -⟩
  · rcases Nat.lt_or_eq_of_le hij with h | rfl
    · exact (@LogId.lt_of_term_eq_of_index_lt (LogId.new ki.leaderId i) (LogId.new ki.leaderId j)
        rfl h).le
    · exact le_rfl
  · -- `kj` comes after `ki`, the last key at or below `i`: it is above `i`
    have hkj_gt : i < kj.index := by
      by_contra hle
      have hmem' : kj ∈ l.keyLogIds.filter (·.index ≤ i) :=
        List.mem_filter.mpr ⟨(List.mem_filter.mp (List.mem_of_getLast?_eq_some hkj)).1, by simpa using hle⟩
      rcases eq_or_rel_getLast? hsorted hmem' hki with h | ⟨h, -⟩
      · exact lt_irrefl _ (h ▸ hlt)
      · exact lt_asymm h hlt
    have hkj_le : kj.index ≤ j := by
      simpa using (List.mem_filter.mp (List.mem_of_getLast?_eq_some hkj)).2
    rcases (LogId.term_le_of_le hlt.le).lt_or_eq with ht | ht
    · exact (@LogId.lt_of_term_lt (LogId.new ki.leaderId i) (LogId.new kj.leaderId j) ht).le
    · exact (@LogId.lt_of_term_eq_of_index_lt (LogId.new ki.leaderId i) (LogId.new kj.leaderId j)
        ht (show i < j by omega)).le

/-- An index `get` answers is at least the first key's. -/
theorem first_index_le_of_get {l : LogIdList} (hwf : l.WellFormed) {f : LogId} {i : Nat} {x : LogId}
    (hf : l.first = f) (h : l.get i = some x) : f.index ≤ i := by
  obtain ⟨-, k, hk, -⟩ := get_eq_some h
  obtain ⟨hkl, hki⟩ := List.mem_filter.mp (List.mem_of_getLast?_eq_some hk)
  have hf' : l.keyLogIds.head? = some f := hf
  obtain ⟨rest, hrest⟩ : ∃ rest, l.keyLogIds = f :: rest := by
    cases hl : l.keyLogIds with
    | nil => simp [hl] at hf'
    | cons a rest => simp only [hl, List.head?_cons, Option.some.injEq] at hf'; exact ⟨rest, hf' ▸ rfl⟩
  unfold WellFormed at hwf
  rw [hrest] at hwf hkl
  rcases List.mem_cons.mp hkl with rfl | hk'
  · simpa using hki
  · exact ((List.pairwise_cons.mp hwf).1 k hk').2.le.trans (by simpa using hki)

-- ================================== what `append` and `truncate` do to `get`

/-- Keys increase by index. -/
def IndexSorted (l : LogIdList) : Prop :=
  l.keyLogIds.Pairwise fun a b => a.index < b.index

theorem WellFormed.indexSorted {l : LogIdList} (h : l.WellFormed) : l.IndexSorted :=
  h.imp And.right

/-- `get` on keys ending in `x`: `x` at its index, the keys before it
below, nothing above. -/
theorem get_concat (ks : List LogId) (x : LogId) (i : Nat) :
    (⟨ks ++ [x]⟩ : LogIdList).get i =
      if i = x.index then some x
      else if i < x.index then (ks.filter (·.index ≤ i)).getLast?.map fun k => LogId.new k.leaderId i
      else none := by
  simp only [get, List.getLast?_concat]
  rcases lt_trichotomy i x.index with h | rfl | h
  · simp [h, h.ne, h.le, not_le.mpr h, List.filter_append]
  · simp [List.filter_append]
    rfl
  · simp [h.ne', not_le.mpr h, (lt_asymm h)]

/-- The last key answers its own index. -/
theorem get_last {l : LogIdList} {lst : LogId} (h : l.last = some lst) : l.get lst.index = some lst := by
  obtain ⟨ks, hks⟩ := List.getLast?_eq_some_iff.mp h
  rw [show l = ⟨ks ++ [lst]⟩ from congrArg LogIdList.mk hks, get_concat, if_pos rfl]

/-- `append` either moves the last key of a run forward or adds a key. -/
theorem append_keys (l : LogIdList) (x : LogId) :
    (∃ ks prev lst, l.keyLogIds = ks ++ [prev, lst] ∧ prev.leaderId = lst.leaderId ∧
        (l.append x).keyLogIds = ks ++ [prev, x]) ∨
      (l.append x).keyLogIds = l.keyLogIds ++ [x] := by
  unfold append
  split
  · rename_i lst prev rest h
    have hl : l.keyLogIds = rest.reverse ++ [prev, lst] := by
      simpa using List.reverse_eq_cons_iff.mp h
    split_ifs with hp
    · exact .inl ⟨rest.reverse, prev, lst, hl, hp, by simp⟩
    · exact .inr rfl
  · exact .inr rfl

variable {l : LogIdList}

theorem eq_mk (l : LogIdList) : l = ⟨l.keyLogIds⟩ := rfl

/-- Appending the next index answers it with the log id appended, and
leaves every other index as it was. -/
theorem get_append (hs : l.IndexSorted) {x : LogId}
    (hx : ∀ lst, l.last = some lst → x.index = lst.index + 1) (i : Nat) :
    (l.append x).get i = if i = x.index then some x else l.get i := by
  rcases append_keys l x with ⟨ks, prev, lst, hl, hp, ha⟩ | ha
  · -- the last key of a run moved forward: `prev` answers for `lst`'s index
    have hlast : l.last = some lst := by simp [last, hl]
    have hprev : prev.index < lst.index := by
      rw [IndexSorted, hl] at hs
      simpa using List.rel_of_pairwise_cons (List.pairwise_append.mp hs).2.1 (List.mem_singleton_self _)
    rw [eq_mk (l.append x), ha, eq_mk l, hl, show ks ++ [prev, x] = (ks ++ [prev]) ++ [x] by simp,
      show ks ++ [prev, lst] = (ks ++ [prev]) ++ [lst] by simp, get_concat, get_concat, hx lst hlast]
    rcases lt_trichotomy i lst.index with h | rfl | h
    · simp [h.ne, h, show i < lst.index + 1 by omega, show i ≠ lst.index + 1 by omega]
    · simp [List.filter_append, hprev.le]
      rw [hp]
      rfl
    · split_ifs <;> first | rfl | omega
  · rw [eq_mk (l.append x), ha, get_concat]
    cases hlst : l.keyLogIds.getLast? with
    | none => simp [get, hlst, List.getLast?_eq_none_iff.mp hlst]
    | some lst =>
      have := hx lst hlst
      simp only [get, hlst]
      split_ifs <;> first | rfl | omega

/-- Appending the next index, past everything the log holds, keeps every
log id it answered. -/
theorem get_append_of_get (hs : l.IndexSorted) {x y : LogId}
    (hx : ∀ lst, l.last = some lst → x.index = lst.index + 1) (hend : ∀ j, x.index ≤ j → l.get j = none)
    {j : Nat} (h : l.get j = some y) : (l.append x).get j = some y := by
  rw [get_append hs hx, if_neg]
  · exact h
  · rintro rfl
    rw [hend _ le_rfl] at h
    cases h

/-- The last key has the greatest index. -/
theorem IndexSorted.index_le_last (hs : l.IndexSorted) {a lst : LogId} (ha : a ∈ l.keyLogIds)
    (hl : l.last = some lst) : a.index ≤ lst.index :=
  (eq_or_rel_getLast? hs ha hl).elim (fun h => h ▸ le_rfl) le_of_lt

theorem last_append (l : LogIdList) (x : LogId) : (l.append x).last = some x := by
  rcases append_keys l x with ⟨_, _, _, -, -, ha⟩ | ha <;> simp [last, ha]

theorem pairwise_concat {R : LogId → LogId → Prop} {ks : List LogId} {y : LogId} :
    (ks ++ [y]).Pairwise R ↔ ks.Pairwise R ∧ ∀ a ∈ ks, R a y := by
  simp [List.pairwise_append]

/-- Appending the next index keeps the keys sorted. -/
theorem IndexSorted.append (hs : l.IndexSorted) {x : LogId}
    (hx : ∀ lst, l.last = some lst → x.index = lst.index + 1) : (l.append x).IndexSorted := by
  rcases append_keys l x with ⟨ks, prev, lst, hl, hp, ha⟩ | ha
  · have := hx lst (by simp [last, hl])
    rw [IndexSorted, hl, show ks ++ [prev, lst] = (ks ++ [prev]) ++ [lst] by simp,
      pairwise_concat] at hs
    rw [IndexSorted, ha, show ks ++ [prev, x] = (ks ++ [prev]) ++ [x] by simp, pairwise_concat]
    exact ⟨hs.1, fun a ha => (hs.2 a ha).trans (by omega)⟩
  · rw [IndexSorted, ha, pairwise_concat]
    refine ⟨hs, fun a ha => ?_⟩
    cases hlst : l.last with
    | bot => simp [List.getLast?_eq_none_iff.mp hlst] at ha
    | coe lst => have := hx lst hlst; have := hs.index_le_last ha hlst; omega

/-- Below an index some key reaches, `get` reads the keys below it only. -/
theorem get_of_lt (hs : l.IndexSorted) {since i : Nat} (hge : ∃ a ∈ l.keyLogIds, since ≤ a.index)
    (hi : i < since) :
    l.get i = (((l.keyLogIds.filter (·.index < since)).filter (·.index ≤ i)).getLast?.map
      fun k => LogId.new k.leaderId i) := by
  obtain ⟨a, ha, hsa⟩ := hge
  obtain ⟨lst, hlst⟩ := Option.ne_none_iff_exists'.mp
    (mt List.getLast?_eq_none_iff.mp (List.ne_nil_of_mem ha))
  have hle := hs.index_le_last ha hlst
  simp only [get, hlst, show i ≤ lst.index by omega, if_true, List.filter_filter]
  rw [List.filter_congr fun k _ => show decide (k.index ≤ i) =
    (decide (k.index ≤ i) && decide (k.index < since)) by by_cases h : k.index ≤ i <;> simp [h]; omega]

/-- Truncating at `since` keeps `get` below it and answers nothing from it
on. -/
theorem get_truncate (hs : l.IndexSorted) (since i : Nat) :
    (l.truncate since).get i = if i < since then l.get i else none := by
  by_cases hall : l.keyLogIds.all (·.index < since) = true
  · rw [truncate, if_pos hall]
    split_ifs with hi
    · rfl
    · cases hlst : l.keyLogIds.getLast? with
      | none => simp [get, hlst]
      | some lst =>
        have := of_decide_eq_true (List.all_eq_true.mp hall lst (List.mem_of_getLast?_eq_some hlst))
        simp only [get, hlst]
        rw [if_neg (by omega)]
  obtain ⟨a, ha, hsa⟩ : ∃ a ∈ l.keyLogIds, since ≤ a.index := by simpa using hall
  rw [truncate, if_neg hall]
  dsimp only
  cases hk : (l.keyLogIds.filter (·.index < since)).getLast? with
  | none =>
    rw [List.getLast?_eq_none_iff] at hk
    simp only [hk]
    split_ifs with hi
    · rw [get_of_lt hs ⟨a, ha, hsa⟩ hi, hk]
      rfl
    · rfl
  | some k =>
    have hks : ∀ x ∈ l.keyLogIds.filter (·.index < since), x.index < since := fun x hx => by
      simpa using (List.mem_filter.mp hx).2
    have hk_lt := hks k (List.mem_of_getLast?_eq_some hk)
    obtain ⟨init, hinit⟩ := List.getLast?_eq_some_iff.mp hk
    -- the kept keys all sit below `since`
    have hkept : ∀ j, since - 1 ≤ j →
        (l.keyLogIds.filter (·.index < since)).filter (·.index ≤ j) =
          l.keyLogIds.filter (·.index < since) := fun j hj =>
      List.filter_eq_self.mpr fun x hx => decide_eq_true (by have := hks x hx; omega)
    have hget := fun (hi : i < since) => get_of_lt hs ⟨a, ha, hsa⟩ hi
    dsimp only
    by_cases hm : k.index + 1 < since
    · -- a marker at `since - 1` closes the cut run
      rw [if_pos hm, get_concat, show (LogId.new k.leaderId (since - 1)).index = since - 1 from rfl]
      rcases lt_trichotomy i (since - 1) with h | rfl | h
      · rw [if_neg h.ne, if_pos h, if_pos (by omega), hget (by omega)]
      · rw [if_pos rfl, if_pos (by omega), hget (by omega), hkept _ le_rfl, hk]
        rfl
      · rw [if_neg (by omega), if_neg (by omega), if_neg (by omega)]
    · -- the last kept key is at `since - 1`
      rw [if_neg hm, hinit, get_concat]
      rcases lt_trichotomy i k.index with h | rfl | h
      · rw [if_neg h.ne, if_pos h, if_pos (by omega), hget (by omega), hinit, List.filter_append]
        simp [h]
      · rw [if_pos rfl, if_pos hk_lt, hget hk_lt, hkept _ (by omega), hk]
        rfl
      · rw [if_neg h.ne', if_neg (not_lt.mpr h.le), if_neg (by omega)]

/-- Truncating keeps the keys sorted. -/
theorem IndexSorted.truncate (hs : l.IndexSorted) (since : Nat) : (l.truncate since).IndexSorted := by
  have hkept : (l.keyLogIds.filter (·.index < since)).Pairwise fun a b => a.index < b.index :=
    hs.filter _
  unfold LogIdList.truncate
  split_ifs
  · exact hs
  dsimp only
  cases hk : (l.keyLogIds.filter (·.index < since)).getLast? with
  | none => exact hkept
  | some k =>
    dsimp only
    split_ifs with hm
    · refine pairwise_concat.mpr ⟨hkept, fun a ha => ?_⟩
      have : a.index ≤ k.index := IndexSorted.index_le_last (l := ⟨_⟩) hkept ha hk
      show a.index < since - 1
      omega
    · exact hkept

/-- A truncation that cuts leaves the last key just below `since`. -/
theorem last_truncate {since : Nat} (hge : ∃ a ∈ l.keyLogIds, since ≤ a.index)
    {lst : LogId} (hl : (l.truncate since).last = some lst) : lst.index + 1 = since := by
  obtain ⟨a, ha, hsa⟩ := hge
  have hall : ¬ l.keyLogIds.all (·.index < since) = true := by
    simpa using ⟨a, ha, hsa⟩
  unfold LogIdList.truncate at hl
  rw [if_neg hall] at hl
  dsimp only at hl
  cases hk : (l.keyLogIds.filter (·.index < since)).getLast? with
  | none =>
    rw [hk] at hl
    simp [last, hk] at hl
  | some k =>
    have hk_lt : k.index < since := by
      simpa using (List.mem_filter.mp (List.mem_of_getLast?_eq_some hk)).2
    rw [hk] at hl
    dsimp only at hl
    split_ifs at hl with hm
    · simp only [last, List.getLast?_concat] at hl
      obtain rfl := Option.some.inj hl
      show since - 1 + 1 = since
      omega
    · obtain rfl : k = lst := Option.some.inj (hk.symm.trans hl)
      omega

/-- Appending log ids of consecutive indexes after the last one: each is
answered at its index, and every index below them as before. -/
theorem get_foldl_append (hs : l.IndexSorted) {ids : List LogId} {m : Nat}
    (hcons : ∀ k (hk : k < ids.length), ids[k].index = m + k)
    (hlast : ∀ lst, l.last = some lst → m = lst.index + 1) :
    (ids.foldl append l).IndexSorted ∧ (∀ x ∈ ids, (ids.foldl append l).get x.index = some x) ∧
      ∀ i < m, (ids.foldl append l).get i = l.get i := by
  induction ids generalizing l m with
  | nil => exact ⟨hs, nofun, fun _ _ => rfl⟩
  | cons x ids ih =>
    have hx : x.index = m := by simpa using hcons 0 (by simp)
    have hxl : ∀ lst, l.last = some lst → x.index = lst.index + 1 := fun lst h => hx ▸ hlast lst h
    obtain ⟨hs', hget, hbelow⟩ := @ih _ (hs.append hxl) (m + 1)
      (fun k hk => by simpa [Nat.add_right_comm, Nat.add_assoc] using hcons (k + 1) (by simpa using hk))
      (fun lst h => by rw [last_append] at h; obtain rfl := Option.some.inj h; omega)
    simp only [List.foldl_cons]
    refine ⟨hs', ?_, fun i hi => (hbelow i (by omega)).trans ?_⟩
    · rintro y (_ | ⟨_, hy⟩)
      · rw [hbelow _ (by omega), get_append hs hxl, if_pos rfl]
      · exact hget y hy
    · rw [get_append hs hxl, if_neg (by omega)]

/-- The last log id appended is the last one. -/
theorem last_foldl_append (l : LogIdList) (ids : List LogId) (x : LogId) :
    ((ids ++ [x]).foldl append l).last = some x := by
  rw [List.foldl_append, List.foldl_cons, List.foldl_nil, last_append]

/-- Log ids of consecutive indexes from `m` end the log at `m` plus their
number. -/
theorem nextIndex_last_foldl_append (l : LogIdList) {ids : List LogId} {m : Nat} (hne : ids ≠ [])
    (hcons : ∀ k (hk : k < ids.length), ids[k].index = m + k) :
    nextIndex (ids.foldl append l).last = m + ids.length := by
  obtain ⟨L, x, rfl⟩ : ∃ L x, ids = L ++ [x] := by
    simpa only [List.concat_eq_append] using (List.eq_nil_or_concat ids).resolve_left hne
  have hx : x.index = m + L.length := by simpa using hcons L.length (by simp)
  rw [last_foldl_append]
  show x.index + 1 = _
  simp only [List.length_append, List.length_singleton]
  omega

end LogIdList

end Openraft
