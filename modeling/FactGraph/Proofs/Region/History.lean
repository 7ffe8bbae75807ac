import FactGraph.Region.Cache
import Mathlib.Data.List.DropRight
import Mathlib.Data.List.Nodup
import Mathlib.Data.Set.Card

/-!
# What a cache answers

**Theorem (`RegionCache.answers_by_history`).** Whatever has been asked of a cache before, an id is
answered without a fetch *exactly if* a fetch for it found a region and the id has not been
forgotten since, and the answer is the region that was found last. The counts are those of the asks
since all was forgotten, as words, so they are the numbers themselves for fewer than 2^64 asks; and
the entries are the ids that are answered without a fetch.

The history tells of each step how often something was fetched and what that gave
(`CacheEvent.fetched`): the fetches of a step are run with a note of each, which changes neither the
answer nor the cache (`RegionCache.step_getOrFetch`). A cache recalls a history
(`RegionCache.Recalls`) if it finds what the history says, has one entry for an id, and has counted
what is to be counted. One step keeps that (`Recalls.step`), whatever the fetch gives, and so does a
run (`recalls_run`).
-/

namespace FactGraph

variable {ε : Type}

/-! ## Steps and their history -/

/-- What is asked of a cache. A fetch finds a region or none, or it fails. -/
inductive CacheStep (ε : Type) where
  | get (id : String)
  | getOrFetch (id : String) (fetch : String → Except ε (Option Region))
  | invalidate (id : String)
  | clear

/-- A step as it went: what was fetched in it, and the answer if it asks for one. -/
structure CacheEvent (ε : Type) where
  step : CacheStep ε
  fetched : List (Except ε (Option Region))
  answer : Option (Except ε (Option Region))

namespace CacheEvent

/-- The step asks for the region of an id. -/
def isAsk (e : CacheEvent ε) : Bool :=
  match e.step with
  | .get _ | .getOrFetch .. => true
  | .invalidate _ | .clear => false

/-- The step was answered with a region, and nothing was fetched. -/
def isHit (e : CacheEvent ε) : Bool :=
  match e.fetched, e.answer with
  | [], some (.ok (some _)) => true
  | _, _ => false

/-- The step forgets everything. -/
def isClear (e : CacheEvent ε) : Bool :=
  match e.step with
  | .clear => true
  | _ => false

/-- The step forgets the id. -/
def Forgets (e : CacheEvent ε) (id : String) : Prop := e.step = .clear ∨ e.step = .invalidate id

/-- The step fetched the region of the id. -/
def Obtains (e : CacheEvent ε) (id : String) (region : Region) : Prop :=
  ∃ fetch, e.step = .getOrFetch id fetch ∧ .ok (some region) ∈ e.fetched

/-- The region is the last that was fetched for the id, and the id has not been forgotten since. -/
def Obtained (history : List (CacheEvent ε)) (id : String) (region : Region) : Prop :=
  ∃ before e after, history = before ++ e :: after ∧ e.Obtains id region ∧
    ∀ later ∈ after, ¬ later.Forgets id ∧ ∀ other, ¬ later.Obtains id other

/-- The events since everything was forgotten. -/
def sinceClear (history : List (CacheEvent ε)) : List (CacheEvent ε) :=
  history.rtakeWhile (!·.isClear)

variable {history : List (CacheEvent ε)} {e : CacheEvent ε} {id : String} {region : Region}

theorem obtained_append_singleton : Obtained (history ++ [e]) id region ↔
    e.Obtains id region ∨
      Obtained history id region ∧ ¬ e.Forgets id ∧ ∀ other, ¬ e.Obtains id other := by
  constructor
  · rintro ⟨before, e', after, hsplit, hobtains, hlater⟩
    -- The region was obtained by the last event, or before it and the last event has left it.
    rcases List.eq_nil_or_concat' after with rfl | ⟨after, last, rfl⟩
    · obtain ⟨-, hlast⟩ := List.append_inj' hsplit rfl
      cases hlast
      exact .inl hobtains
    · rw [← List.cons_append, ← List.append_assoc] at hsplit
      obtain ⟨rfl, hlast⟩ := List.append_inj' hsplit rfl
      cases hlast
      exact .inr ⟨⟨before, e', after, rfl, hobtains, fun later hmem =>
        hlater later (List.mem_append_left _ hmem)⟩, hlater e (by simp)⟩
  · rintro (hobtains | ⟨⟨before, e', after, rfl, hobtains, hlater⟩, hlast⟩)
    · exact ⟨history, e, [], rfl, hobtains, by simp⟩
    · refine ⟨before, e', after ++ [e], by simp, hobtains, fun later hmem => ?_⟩
      rcases List.mem_append.1 hmem with hmem | hmem
      · exact hlater later hmem
      · obtain rfl := List.mem_singleton.1 hmem
        exact hlast

theorem obtains_getOrFetch {fetch : String → Except ε (Option Region)}
    {fetched : List (Except ε (Option Region))} {answer : Option (Except ε (Option Region))}
    {other : String} :
    Obtains ⟨.getOrFetch id fetch, fetched, answer⟩ other region ↔
      id = other ∧ .ok (some region) ∈ fetched := by
  constructor
  · rintro ⟨_, hstep, hmem⟩
    cases hstep
    exact ⟨rfl, hmem⟩
  · rintro ⟨rfl, hmem⟩
    exact ⟨fetch, rfl, hmem⟩

theorem not_obtained_nil : ¬ Obtained ([] : List (CacheEvent ε)) id region := by
  rintro ⟨before, e, after, hsplit, -⟩
  simp at hsplit

theorem sinceClear_append_singleton : sinceClear (history ++ [e]) =
    if e.isClear then [] else sinceClear history ++ [e] := by
  rw [sinceClear, List.rtakeWhile_concat]
  cases e.isClear <;> rfl

end CacheEvent

namespace RegionCache

open CacheEvent

/-- Fetches with a note of what that gave. -/
def noted (fetch : String → Except ε (Option Region)) (id : String) :
    StateM (List (Except ε (Option Region))) (Except ε (Option Region)) := do
  modify (· ++ [fetch id])
  return fetch id

theorem run_noted (fetch : String → Except ε (Option Region)) (id : String)
    (fetched : List (Except ε (Option Region))) :
    (noted fetch id).run fetched = (fetch id, fetched ++ [fetch id]) := rfl

/-- A step, as it goes, and the cache after it. -/
def step (c : RegionCache) : CacheStep ε → CacheEvent ε × RegionCache
  | .get id => (⟨.get id, [], some (.ok (c.get id).1)⟩, (c.get id).2)
  | .getOrFetch id fetch =>
    let ((answer, after), fetched) := Id.run ((c.getOrFetchM id (noted fetch)).run [])
    (⟨.getOrFetch id fetch, fetched, some answer⟩, after)
  | .invalidate id => (⟨.invalidate id, [], none⟩, c.invalidate id)
  | .clear => (⟨.clear, [], none⟩, c.clear)

/-- The history of steps on a new cache, and the cache after them. -/
def run (steps : List (CacheStep ε)) : List (CacheEvent ε) × RegionCache :=
  steps.foldl (fun (history, c) s => (history ++ [(c.step s).1], (c.step s).2)) ([], empty)

theorem run_append_singleton (steps : List (CacheStep ε)) (s : CacheStep ε) :
    run (steps ++ [s]) =
      ((run steps).1 ++ [((run steps).2.step s).1], ((run steps).2.step s).2) := by
  rw [run, List.foldl_append]
  rfl

/-! ## Entries -/

variable {c : RegionCache} {id other : String} {region : Region}

theorem find?_invalidate (c : RegionCache) (id other : String) :
    (c.invalidate id).find? other = if other = id then none else c.find? other := by
  rw [invalidate, find?, List.find?_filter]
  split
  next hid =>
    subst hid
    rw [List.find?_eq_none.2 (by simp), Option.map_none]
  next hid =>
    rw [find?]
    congr 2
    funext entry
    by_cases hentry : entry.id = other <;> simp [hentry, hid]

theorem find?_remember (c : RegionCache) (id : String) (region : Region) (other : String) :
    (c.remember id region).find? other = if other = id then some region else c.find? other := by
  have hother := find?_invalidate c id other
  split
  next hid => simp [remember, find?, hid]
  next hid =>
    rw [if_neg hid] at hother
    rw [← hother]
    simp [remember, invalidate, find?, Ne.symm hid]

/-- The cache has at most one entry for an id. -/
def IsDistinct (c : RegionCache) : Prop := (c.entries.map (·.id)).Nodup

theorem IsDistinct.invalidate (h : c.IsDistinct) (id : String) : (c.invalidate id).IsDistinct :=
  h.sublist (List.filter_sublist.map _)

theorem IsDistinct.remember (h : c.IsDistinct) (id : String) (region : Region) :
    (c.remember id region).IsDistinct := by
  refine List.nodup_cons.2 ⟨fun hmem => ?_, h.invalidate id⟩
  obtain ⟨entry, hentry, hid⟩ := List.mem_map.1 hmem
  simp [hid] at hentry

theorem exists_find?_iff : (∃ region, c.find? id = some region) ↔ id ∈ c.entries.map (·.id) := by
  rw [← Option.isSome_iff_exists, find?, Option.isSome_map, List.find?_isSome, List.mem_map]
  simp

/-! ## One step -/

theorem step_getOrFetch_of_some (h : c.find? id = some region)
    (fetch : String → Except ε (Option Region)) :
    c.step (.getOrFetch id fetch) =
      (⟨.getOrFetch id fetch, [], some (.ok (some region))⟩, c.count true) := by
  simp only [step, getOrFetchM, get, h]
  rfl

/-- What was fetched is remembered if it is a region. -/
def keep (c : RegionCache) (id : String) : Except ε (Option Region) → RegionCache
  | .ok (some region) => c.remember id region
  | _ => c

theorem step_getOrFetch_of_none (h : c.find? id = none)
    (fetch : String → Except ε (Option Region)) :
    c.step (.getOrFetch id fetch) =
      (⟨.getOrFetch id fetch, [fetch id], some (fetch id)⟩,
        (c.count false).keep id (fetch id)) := by
  simp only [step, getOrFetchM, get, h, StateT.run_bind, run_noted]
  rcases fetch id with cause | _ | region <;> rfl

/-- The note changes neither the answer nor the cache. -/
theorem step_getOrFetch (c : RegionCache) (id : String)
    (fetch : String → Except ε (Option Region)) :
    (c.step (.getOrFetch id fetch)).1.answer = some (c.getOrFetch id fetch).1 ∧
      (c.step (.getOrFetch id fetch)).2 = (c.getOrFetch id fetch).2 := by
  cases hfind : c.find? id with
  | some region =>
    rw [step_getOrFetch_of_some hfind]
    simp [getOrFetch, getOrFetchM, get, hfind]
  | none =>
    rw [step_getOrFetch_of_none hfind]
    rcases hfetch : fetch id with cause | _ | region <;>
      simp [getOrFetch, getOrFetchM, get, hfind, hfetch, keep]

@[simp] theorem entries_count (c : RegionCache) (hit : Bool) :
    (c.count hit).entries = c.entries := by
  cases hit <;> rfl

@[simp] theorem find?_count (c : RegionCache) (hit : Bool) (id : String) :
    (c.count hit).find? id = c.find? id := by
  rw [find?, entries_count, find?]

/-- The cache finds what the history says, and has counted it. -/
structure Recalls (history : List (CacheEvent ε)) (c : RegionCache) : Prop where
  finds : ∀ id region, c.find? id = some region ↔ Obtained history id region
  distinct : c.IsDistinct
  asks : c.hitCount + c.missCount = .ofNat ((sinceClear history).countP isAsk)
  hits : c.hitCount = .ofNat ((sinceClear history).countP isHit)
  hits_le : (sinceClear history).countP isHit ≤ (sinceClear history).countP isAsk

variable {history : List (CacheEvent ε)} {e : CacheEvent ε}

/-- What is found after an event is what it obtained, or what was found before and not forgotten. -/
theorem Recalls.finds_append (h : Recalls history c) {after : RegionCache}
    (hafter : ∀ id region, after.find? id = some region ↔
      e.Obtains id region ∨
        c.find? id = some region ∧ ¬ e.Forgets id ∧ ∀ other, ¬ e.Obtains id other) :
    ∀ id region, after.find? id = some region ↔ Obtained (history ++ [e]) id region := by
  intro id region
  rw [hafter, obtained_append_singleton, h.finds]

theorem Recalls.counts_append (h : Recalls history c) (after : RegionCache) {hit : Bool}
    (hask : e.isAsk = true) (hclear : e.isClear = false) (hhit : e.isHit = hit)
    (hhits : after.hitCount = (c.count hit).hitCount)
    (hmisses : after.missCount = (c.count hit).missCount) :
    let events := sinceClear (history ++ [e])
    after.hitCount + after.missCount = .ofNat (events.countP isAsk) ∧
      after.hitCount = .ofNat (events.countP isHit) ∧
      events.countP isHit ≤ events.countP isAsk := by
  intro events
  have hevents : events = sinceClear history ++ [e] := by
    rw [show events = _ from sinceClear_append_singleton, hclear, if_neg Bool.false_ne_true]
  have hle := h.hits_le
  simp only [hevents, hhits, hmisses, List.countP_append, List.countP_singleton, hask, hhit,
    UInt64.ofNat_add, ← h.asks, ← h.hits]
  cases hit with
  | true =>
    refine ⟨?_, by simp [count], by simpa using hle⟩
    simp only [count, if_true, UInt64.ofNat_one]
    rw [UInt64.add_assoc, UInt64.add_comm 1, ← UInt64.add_assoc]
  | false => exact ⟨by simp [count, UInt64.add_assoc], by simp [count], by simp; omega⟩

theorem recalls_empty : Recalls ([] : List (CacheEvent ε)) empty where
  finds := fun _ _ => iff_of_false nofun not_obtained_nil
  distinct := List.nodup_nil
  asks := rfl
  hits := rfl
  hits_le := le_rfl

theorem Recalls.quiet (h : Recalls history c) (hit : Bool) (hask : e.isAsk = true)
    (hclear : e.isClear = false) (hhit : e.isHit = hit) (hforgets : ∀ id, ¬ e.Forgets id)
    (hobtains : ∀ id region, ¬ e.Obtains id region) : Recalls (history ++ [e]) (c.count hit) := by
  obtain ⟨hasks, hhits, hle⟩ := h.counts_append (c.count hit) hask hclear hhit rfl rfl
  refine ⟨h.finds_append fun id region => ?_, ?_, hasks, hhits, hle⟩
  · simp [hforgets, hobtains]
  · rw [IsDistinct, entries_count]
    exact h.distinct

theorem Recalls.obtained (h : Recalls history c) (id : String)
    {fetch : String → Except ε (Option Region)} (hfetch : fetch id = .ok (some region)) :
    Recalls (history ++ [⟨.getOrFetch id fetch, [fetch id], some (fetch id)⟩])
      ((c.count false).remember id region) := by
  obtain ⟨hasks, hhits, hle⟩ :=
    h.counts_append (e := ⟨.getOrFetch id fetch, [fetch id], some (fetch id)⟩)
      ((c.count false).remember id region) rfl rfl rfl rfl rfl
  refine ⟨h.finds_append fun other found => ?_, ?_, hasks, hhits, hle⟩
  · rw [find?_remember, find?_count]
    simp only [obtains_getOrFetch, hfetch, List.mem_singleton, Except.ok.injEq, Option.some.injEq,
      Forgets, reduceCtorEq, or_self, not_false_eq_true, true_and]
    by_cases hid : other = id
    · subst hid
      simp [eq_comm]
    · simp [hid, Ne.symm hid]
  · refine IsDistinct.remember ?_ id region
    rw [IsDistinct, entries_count]
    exact h.distinct

/-- **A step keeps what the cache recalls**, whatever is asked and whatever a fetch gives. -/
theorem Recalls.step (h : Recalls history c) (s : CacheStep ε) :
    Recalls (history ++ [(c.step s).1]) (c.step s).2 := by
  cases s with
  | get id =>
    refine h.quiet (c.find? id).isSome rfl rfl ?_ (by simp [RegionCache.step, Forgets])
      (by simp [RegionCache.step, Obtains])
    cases hfind : c.find? id <;> simp [RegionCache.step, get, hfind, isHit]
  | getOrFetch id fetch =>
    cases hfind : c.find? id with
    | some region =>
      rw [step_getOrFetch_of_some hfind]
      exact h.quiet _ rfl rfl rfl (by simp [Forgets]) (by simp [obtains_getOrFetch])
    | none =>
      rw [step_getOrFetch_of_none hfind]
      rcases hfetch : fetch id with cause | _ | region
      · exact h.quiet _ rfl rfl rfl (by simp [Forgets]) (by simp [obtains_getOrFetch])
      · exact h.quiet _ rfl rfl rfl (by simp [Forgets]) (by simp [obtains_getOrFetch])
      · rw [← hfetch]
        exact hfetch ▸ h.obtained id hfetch
  | invalidate id =>
    refine ⟨h.finds_append fun other found => ?_, h.distinct.invalidate id, ?_, ?_, ?_⟩
    · rw [RegionCache.step, find?_invalidate]
      by_cases hid : other = id
      · simp [Forgets, Obtains, hid]
      · simp [Forgets, Obtains, hid, Ne.symm hid]
    · rw [sinceClear_append_singleton]
      simpa [RegionCache.step, isClear, isAsk, RegionCache.invalidate] using h.asks
    · rw [sinceClear_append_singleton]
      simpa [RegionCache.step, isClear, isHit, RegionCache.invalidate] using h.hits
    · rw [sinceClear_append_singleton]
      simpa [RegionCache.step, isClear, isAsk, isHit] using h.hits_le
  | clear =>
    refine ⟨h.finds_append fun other found => ?_, List.nodup_nil, ?_, ?_, ?_⟩
    · simp [RegionCache.step, Forgets, Obtains, RegionCache.clear, empty, find?]
    all_goals rw [sinceClear_append_singleton]
    · rfl
    · rfl
    · exact le_rfl

/-- **Whatever is asked of a new cache, it recalls the history.** -/
theorem recalls_run (steps : List (CacheStep ε)) : Recalls (run steps).1 (run steps).2 := by
  induction steps using List.reverseRecOn with
  | nil => exact recalls_empty
  | append_singleton steps s ih =>
    rw [run_append_singleton]
    exact ih.step s

/-- Fewer than 2^64 asks are counted exactly. -/
theorem Recalls.counts_of_few (h : Recalls history c)
    (hfew : (sinceClear history).countP isAsk < 2 ^ 64) :
    c.hits + c.misses = (sinceClear history).countP isAsk ∧
      c.hits = (sinceClear history).countP isHit := by
  have hle := h.hits_le
  have hasks := congrArg UInt64.toNat h.asks
  have hhits := congrArg UInt64.toNat h.hits
  rw [UInt64.toNat_add, UInt64.toNat_ofNat_of_lt' hfew] at hasks
  rw [UInt64.toNat_ofNat_of_lt' (hle.trans_lt hfew)] at hhits
  have hmisses := c.missCount.toNat_lt
  -- The sum is the number of asks up to 2^64, and the hits are not more than the asks.
  rw [RegionCache.hits, RegionCache.misses]
  omega

/-! ## The result -/

/-- **What a cache answers follows from its history.** After any steps, an id is answered without a
fetch exactly if a fetch for it obtained a region and the id has not been forgotten since; the
answer is then the last region obtained. Otherwise `getOrFetch` fetches once and answers with what
that gave, which changes no entry unless it is a region. Hits and misses are the asks since all was
forgotten, hits those that were answered without a fetch, both as words, and so exactly as long as
there are fewer than 2^64 asks; and there are as many entries as ids that have a region. -/
theorem answers_by_history (steps : List (CacheStep ε)) :
    let history := (run steps).1
    let c := (run steps).2
    (∀ id region, (c.step (.get id : CacheStep ε)).1.answer = some (.ok (some region)) ↔
      Obtained history id region) ∧
    (∀ id (fetch : String → Except ε (Option Region)),
      let event := (c.step (.getOrFetch id fetch)).1
      (∀ region, (event.fetched = [] ∧ event.answer = some (.ok (some region))) ↔
        Obtained history id region) ∧
      ((∀ region, ¬ Obtained history id region) →
        event.fetched = [fetch id] ∧ event.answer = some (fetch id)) ∧
      ((∀ region, fetch id ≠ .ok (some region)) →
        (c.step (.getOrFetch id fetch)).2.entries = c.entries)) ∧
    c.stats.hits + c.stats.misses = .ofNat ((sinceClear history).countP isAsk) ∧
    c.stats.hits = .ofNat ((sinceClear history).countP isHit) ∧
    ((sinceClear history).countP isAsk < 2 ^ 64 →
      c.hits + c.misses = (sinceClear history).countP isAsk ∧
      c.hits = (sinceClear history).countP isHit) ∧
    c.stats.entries = {id | ∃ region, Obtained history id region}.ncard := by
  intro history c
  have h : Recalls history c := recalls_run steps
  refine ⟨fun id region => ?_, fun id fetch => ?_, h.asks, h.hits, h.counts_of_few, ?_⟩
  · rw [← h.finds]
    simp [RegionCache.step, get]
  · cases hfind : c.find? id with
    | some region =>
      have hobtained := (h.finds id region).1 hfind
      rw [step_getOrFetch_of_some hfind]
      refine ⟨fun other => ?_, fun hnone => absurd hobtained (hnone region), fun _ => ?_⟩
      · rw [← h.finds, hfind]
        simp
      · exact entries_count c true
    | none =>
      rw [step_getOrFetch_of_none hfind]
      refine ⟨fun other => ?_, fun _ => ⟨rfl, rfl⟩, fun hfetch => ?_⟩
      · rw [← h.finds, hfind]
        simp
      · rcases hgiven : fetch id with cause | _ | region
        · exact entries_count c false
        · exact entries_count c false
        · exact absurd hgiven (hfetch region)
  · have hids : {id | ∃ region, Obtained history id region} =
        ((c.entries.map (·.id)).toFinset : Set String) := by
      ext id
      simp only [Set.mem_ofPred_eq, ← h.finds, exists_find?_iff, List.coe_toFinset]
    rw [hids, Set.ncard_coe_finset, List.toFinset_card_of_nodup h.distinct, List.length_map]
    rfl

/-- A region that was forgotten is fetched again, and the answer is then the new one, although
another id was forgotten and another fetch failed. -/
theorem answers_by_history_again :
    let old : Region := ⟨"Q1", some "Old", none, none, none, none⟩
    let new : Region := ⟨"Q1", some "New", none, none, none, none⟩
    let steps : List (CacheStep String) :=
      [.getOrFetch "Q1" fun _ => .ok (some old), .invalidate "Q1",
        .getOrFetch "Q1" fun _ => .ok (some new), .invalidate "Q2",
        .getOrFetch "Q2" fun _ => .error "unknown"]
    let c := (run steps).2
    (c.step (.get "Q1" : CacheStep String)).1.answer = some (.ok (some new)) ∧
      (sinceClear (run steps).1).countP isAsk = 3 ∧
      c.hits + c.misses = 3 ∧ c.stats = ⟨0, 3, 1⟩ := by
  intro old new steps c
  obtain ⟨hanswers, -, -, -, hcounts, -⟩ := answers_by_history steps
  have hasks : (sinceClear (run steps).1).countP isAsk = 3 := by decide
  refine ⟨(hanswers "Q1" new).2 ?_, hasks, ?_, by decide⟩
  case refine_2 =>
    rw [← hasks]
    exact (hcounts (by rw [hasks]; decide)).1
  refine ⟨(run (steps.take 2)).1, _, (run steps).1.drop 3, rfl,
    ⟨fun _ => .ok (some new), rfl, List.mem_singleton_self _⟩, fun later hlater => ?_⟩
  rw [show (run steps).1.drop 3 = [⟨.invalidate "Q2", [], none⟩,
    ⟨.getOrFetch "Q2" fun _ => .error "unknown", [.error "unknown"], some (.error "unknown")⟩]
    from rfl] at hlater
  rcases List.mem_pair.1 hlater with rfl | rfl
  · simp [Forgets, Obtains]
  · simp [Forgets, obtains_getOrFetch]

end RegionCache

end FactGraph
