import Mathlib.Data.List.TakeWhile
import RTDB.Api.Qdrant
import RTDB.Collection.FilteredSearch

/-!
# Scrolling through a collection

`scroll_points` of `api/qdrant_compat.rs`.  A page asks for one id after the other, and gives up
100000 ids after its first one; what comes behind such a gap is not found.
-/

namespace RTDB
namespace Api
namespace Qdrant

open Storage

variable {P D F : Type}

structure ScrollRequest (F : Type) where
  offset : Option PointId
  limit : Nat
  filter : Option (Filter F)
  withVector : Option Bool
  withPayload : Bool

/-- A point whose vector is plain. -/
structure PointStruct (P : Type) where
  id : PointId
  vector : List UInt32
  payload : Option P

structure ScrollResponse (P : Type) where
  points : List (PointStruct P)
  nextPageOffset : Option PointId

/-- The variables of the loop. -/
structure Scroll (P : Type) where
  points : List (PointStruct P)
  nextOffset : Option PointId
  currentId : Nat
  collected : Nat

/-- The ids a page asks for after its first one. -/
def scrollSpan : Nat := 100000

def startId : Option PointId → Nat
  | some (.integer id) => id
  | some (.string s) => (parseU64 s).getD 0
  | none => 0

/-- Filters are not evaluated. -/
def includePoint : Option (Filter F) → Bool
  | some _ => true
  | none => true

def pointStruct (request : ScrollRequest F) (currentId : Nat) (vector : RetrievedVector P) :
    PointStruct P :=
  { id := .integer currentId
    vector := if request.withVector.getD false then vector.vector else []
    payload := if request.withPayload then vector.payload else none }

section Loop

variable (get : Nat → Except RTDBError (Option (RetrievedVector P)))
  (request : ScrollRequest F)

/-- The `match` on the point with the current id. -/
def visit (s : Scroll P) : Scroll P :=
  match get s.currentId with
  | .ok (some vector) =>
    if includePoint request.filter then
      { s with
        points := s.points ++ [pointStruct request s.currentId vector]
        collected := s.collected + 1 }
    else s
  | .ok none => s
  | .error _ => s

def round (s : Scroll P) : Option (Scroll P) :=
  let s := visit get request s
  match checkedAdd s.currentId 1 with
  | none => none
  | some currentId =>
    let nextOffset :=
      if s.collected = request.limit then some (.integer currentId) else s.nextOffset
    some { s with currentId, nextOffset }

theorem visit_spec (s : Scroll P) :
    (visit get request s).currentId = s.currentId ∧
      (visit get request s).collected ≤ s.collected + 1 := by
  rw [visit]
  split
  · split
    · exact ⟨rfl, Nat.le_refl _⟩
    · exact ⟨rfl, Nat.le_succ _⟩
  · exact ⟨rfl, Nat.le_succ _⟩
  · exact ⟨rfl, Nat.le_succ _⟩

theorem checkedAdd_eq_some {a b c : Nat} : checkedAdd a b = some c ↔ a + b < 2 ^ 64 ∧ a + b = c := by
  rw [checkedAdd]
  split <;> simp_all

theorem round_spec {s s' : Scroll P} (hround : round get request s = some s') :
    s.currentId + 1 < 2 ^ 64 ∧ s'.currentId = s.currentId + 1 ∧
      s'.collected ≤ s.collected + 1 ∧
      (s'.collected = request.limit → s'.nextOffset = some (.integer s'.currentId)) := by
  obtain ⟨hcurrent, hcollected⟩ := visit_spec get request s
  rw [round, hcurrent] at hround
  cases hadd : checkedAdd s.currentId 1 with
  | none =>
    rw [hadd] at hround
    exact absurd hround (by simp)
  | some currentId =>
    rw [hadd] at hround
    obtain ⟨hfits, hnext⟩ := checkedAdd_eq_some.mp hadd
    obtain rfl := Option.some.inj hround
    exact ⟨hfits, hnext.symm, hcollected, fun hfull => if_pos hfull⟩

/-- `none` is an overflow. -/
def scrollLoop (span start : Nat) (s : Scroll P) : Option (Scroll P) :=
  if s.collected < request.limit then
    match _ : round get request s with
    | none => none
    | some s' =>
      match _ : checkedAdd start span with
      | none => none
      | some last => if s'.currentId > last then some s' else scrollLoop span start s'
  else some s
termination_by start + span + 1 - s.currentId
decreasing_by
  have hnext := (round_spec get request ‹round get request s = some s'›).2.1
  have hbound := (checkedAdd_eq_some.mp ‹checkedAdd start span = some last›).2
  omega

end Loop

section Handler

variable (isAlphanumeric : Char → Bool) (codec : Codec P)
  (collections : String → Option (Collection P D))

def scrollPoints (name : String) (request : ScrollRequest F) :
    Option (Except ApiError (ScrollResponse P)) :=
  match validated (validateCollectionName isAlphanumeric name) with
  | .error e => some (.error e)
  | .ok () =>
    match validated (validateLimit request.limit) with
    | .error e => some (.error e)
    | .ok () =>
      match collections name with
      | none => some (.error (.collectionNotFound name))
      | some collection =>
        let start := startId request.offset
        (scrollLoop (collection.get codec) request scrollSpan start
          { points := [], nextOffset := none, currentId := start, collected := 0 }).map fun s =>
            .ok { points := s.points, nextPageOffset := s.nextOffset }

/-- What a client gets that goes on with each offset it is given until there is none, with so many
calls at most. -/
def scrollFrom (name : String) (request : ScrollRequest F) :
    Nat → Option PointId → Option (List (PointStruct P))
  | 0, _ => none
  | calls + 1, offset =>
    match scrollPoints isAlphanumeric codec collections name { request with offset } with
    | some (.ok response) =>
      match response.nextPageOffset with
      | none => some response.points
      | some next =>
        (scrollFrom name request calls (some next)).map (response.points ++ ·)
    | _ => none

end Handler

/-! ## A page -/

section Page

variable {get : Nat → Except RTDBError (Option (RetrievedVector P))}
  {request : ScrollRequest F} {span start : Nat}

structure LiveFrom (get : Nat → Except RTDBError (Option (RetrievedVector P)))
    (currentId : Nat) (live : List (Nat × RetrievedVector P)) : Prop where
  sorted : live.Pairwise fun a b => a.1 < b.1
  holds : ∀ id vector, (id, vector) ∈ live ↔ currentId ≤ id ∧ get id = .ok (some vector)

theorem LiveFrom.first {currentId : Nat} {live : List (Nat × RetrievedVector P)}
    (hlive : LiveFrom get currentId live) {vector : RetrievedVector P}
    (hget : get currentId = .ok (some vector)) :
    ∃ rest, live = (currentId, vector) :: rest ∧ LiveFrom get (currentId + 1) rest := by
  have hmem := (hlive.holds currentId vector).mpr ⟨Nat.le_refl _, hget⟩
  cases live with
  | nil => exact absurd hmem List.not_mem_nil
  | cons head rest =>
    have hlater := List.pairwise_cons.mp hlive.sorted
    have hhead : (currentId, vector) = head := by
      rcases List.mem_cons.mp hmem with heq | hrest
      · exact heq
      · have hlt := hlater.1 _ hrest
        have hle := ((hlive.holds head.1 head.2).mp List.mem_cons_self).1
        exact absurd hlt (Nat.not_lt.mpr hle)
    subst hhead
    refine ⟨rest, rfl, hlater.2, fun id v => ?_⟩
    constructor
    · intro hv
      have hlt := hlater.1 _ hv
      exact ⟨hlt, ((hlive.holds id v).mp (List.mem_cons_of_mem _ hv)).2⟩
    · rintro ⟨hle, hv⟩
      rcases List.mem_cons.mp ((hlive.holds id v).mpr ⟨by omega, hv⟩) with heq | hrest
      · have hid := congrArg Prod.fst heq
        dsimp only at hid
        omega
      · exact hrest

theorem LiveFrom.skip {currentId : Nat} {live : List (Nat × RetrievedVector P)}
    (hlive : LiveFrom get currentId live) (hget : ∀ vector, get currentId ≠ .ok (some vector)) :
    LiveFrom get (currentId + 1) live := by
  refine ⟨hlive.sorted, fun id vector => ?_⟩
  rw [hlive.holds]
  constructor
  · rintro ⟨hle, hv⟩
    have hne : id ≠ currentId := fun heq => hget vector (heq ▸ hv)
    exact ⟨by omega, hv⟩
  · rintro ⟨hle, hv⟩
    exact ⟨by omega, hv⟩

theorem round_live (request : ScrollRequest F) {s : Scroll P} {vector : RetrievedVector P}
    (hget : get s.currentId = .ok (some vector)) (hfits : s.currentId + 1 < 2 ^ 64) :
    ∃ s', round get request s = some s' ∧ s'.currentId = s.currentId + 1 ∧
      s'.collected = s.collected + 1 ∧
      s'.points = s.points ++ [pointStruct request s.currentId vector] ∧
      s'.nextOffset =
        if s.collected + 1 = request.limit then some (.integer (s.currentId + 1))
        else s.nextOffset := by
  have hinclude : includePoint request.filter = true := by cases request.filter <;> rfl
  have hvisit : visit get request s =
      { s with
        points := s.points ++ [pointStruct request s.currentId vector]
        collected := s.collected + 1 } := by
    rw [visit, hget]
    exact if_pos hinclude
  rw [round, hvisit, checkedAdd_eq_some.mpr ⟨hfits, rfl⟩]
  exact ⟨_, rfl, rfl, rfl, rfl, rfl⟩

theorem round_gap {s : Scroll P} (hget : ∀ vector, get s.currentId ≠ .ok (some vector))
    (hfits : s.currentId + 1 < 2 ^ 64) (hmore : s.collected < request.limit) :
    round get request s = some { s with currentId := s.currentId + 1 } := by
  have hvisit : visit get request s = s := by
    rw [visit]
    split
    · next vector hsome => exact absurd hsome (hget vector)
    · rfl
    · rfl
  rw [round, hvisit, checkedAdd_eq_some.mpr ⟨hfits, rfl⟩]
  dsimp only
  rw [if_neg (by omega)]

theorem scrollLoop_of_round {s s' : Scroll P} (hmore : s.collected < request.limit)
    (hround : round get request s = some s') (hfits : start + span < 2 ^ 64) :
    scrollLoop get request span start s =
      if s'.currentId > start + span then some s' else scrollLoop get request span start s' := by
  have hlast : checkedAdd start span = some (start + span) := checkedAdd_eq_some.mpr ⟨hfits, rfl⟩
  rw [scrollLoop, if_pos hmore]
  split
  · next hnone => exact absurd (hround.symm.trans hnone) (by simp)
  · next s'' hsome =>
    obtain rfl : s' = s'' := Option.some.inj (hround.symm.trans hsome)
    split
    · next hnone => exact absurd (hlast.symm.trans hnone) (by simp)
    · next last hsome' =>
      obtain rfl : start + span = last := Option.some.inj (hlast.symm.trans hsome')
      rfl

/-- The points a page may reach. -/
def window (span start : Nat) (live : List (Nat × RetrievedVector P)) :
    List (Nat × RetrievedVector P) :=
  live.takeWhile fun point => point.1 ≤ start + span

theorem window_eq_nil {currentId : Nat} {live : List (Nat × RetrievedVector P)}
    (hlive : LiveFrom get currentId live) (hbehind : start + span < currentId) :
    window span start live = [] := by
  cases live with
  | nil => rfl
  | cons head rest =>
    have hle := ((hlive.holds head.1 head.2).mp List.mem_cons_self).1
    exact List.takeWhile_cons_of_neg (by simp; omega)

theorem scrollLoop_full {s : Scroll P} (hfull : ¬s.collected < request.limit) :
    scrollLoop get request span start s = some s := by
  rw [scrollLoop, if_neg hfull]

/-- A page lists the points in its window up to the limit, and goes on behind the last one if
there are so many. -/
theorem scrollLoop_eq (request : ScrollRequest F) (hfits : start + span + 1 < 2 ^ 64) {s : Scroll P}
    {live : List (Nat × RetrievedVector P)} (hlive : LiveFrom get s.currentId live)
    (hin : s.currentId ≤ start + span) (hmore : s.collected < request.limit)
    (hnone : s.nextOffset = none) :
    ∃ s', scrollLoop get request span start s = some s' ∧
      s'.points = s.points ++ ((window span start live).take (request.limit - s.collected)).map
        (fun point => pointStruct request point.1 point.2) ∧
      s'.nextOffset = ((window span start live)[request.limit - s.collected - 1]?).map
        fun point => .integer (point.1 + 1) := by
  induction hn : start + span - s.currentId using Nat.strong_induction_on generalizing s live with
  | _ n ih =>
    by_cases hsome : ∃ vector, get s.currentId = .ok (some vector)
    · obtain ⟨vector, hget⟩ := hsome
      obtain ⟨rest, rfl, hrest⟩ := hlive.first hget
      obtain ⟨s', hround, hcurrent, hcollected, hpoints, hnext⟩ :=
        round_live request hget (by omega)
      have hwindow : window span start ((s.currentId, vector) :: rest) =
          (s.currentId, vector) :: window span start rest :=
        List.takeWhile_cons_of_pos (by simpa using hin)
      obtain ⟨room, hroom⟩ : ∃ room, request.limit - s.collected = room + 1 :=
        Nat.exists_eq_add_one_of_ne_zero (by omega)
      rw [scrollLoop_of_round hmore hround (show start + span < 2 ^ 64 by omega), hwindow, hroom,
        List.take_succ_cons, List.map_cons, Nat.add_sub_cancel]
      by_cases hfull : s.collected + 1 = request.limit
      · obtain rfl : room = 0 := by omega
        rw [scrollLoop_full (show ¬s'.collected < request.limit by omega), ite_self]
        exact ⟨s', rfl, hpoints, hnext.trans (if_pos hfull)⟩
      · rw [if_neg hfull, hnone] at hnext
        obtain ⟨room, rfl⟩ := Nat.exists_eq_add_one_of_ne_zero (n := room) (by omega)
        rw [List.getElem?_cons_succ]
        by_cases hend : s.currentId = start + span
        · rw [window_eq_nil hrest (by omega), if_pos (by omega)]
          exact ⟨s', rfl, hpoints, hnext⟩
        · rw [if_neg (by omega)]
          obtain ⟨s'', hs'', hpoints', hnext'⟩ := ih (start + span - s'.currentId) (by omega)
            (hcurrent ▸ hrest) (by omega) (by omega) hnext rfl
          have hleft : request.limit - s'.collected = room + 1 := by omega
          rw [hleft] at hpoints' hnext'
          refine ⟨s'', hs'', ?_, hnext'⟩
          rw [hpoints', hpoints, List.append_assoc, List.singleton_append]
    · have hget : ∀ vector, get s.currentId ≠ .ok (some vector) := fun vector hv => hsome ⟨vector, hv⟩
      have hrest := hlive.skip hget
      have hround := round_gap hget (by omega) hmore
      have hloop := scrollLoop_of_round hmore hround (show start + span < 2 ^ 64 by omega)
      rw [hloop]
      by_cases hend : s.currentId = start + span
      · rw [window_eq_nil hrest (by omega)]
        exact ⟨_, if_pos (by dsimp only; omega), by simp, by simpa using hnone⟩
      · rw [if_neg (by dsimp only; omega)]
        exact ih (start + span - (s.currentId + 1)) (by omega) hrest (by dsimp only; omega) hmore
          hnone rfl

/-- A page that can overflow goes on behind its start, if it does not. -/
theorem scrollLoop_overflow (hover : 2 ^ 64 ≤ start + span + 1) {s s' : Scroll P}
    (hbehind : start ≤ s.currentId) (hcollected : s.collected ≤ request.limit)
    (hnext : s.collected = request.limit → ∃ next, s.nextOffset = some (.integer next) ∧ start < next)
    (hloop : scrollLoop get request span start s = some s') :
    ∃ next, s'.nextOffset = some (.integer next) ∧ start < next := by
  fun_induction scrollLoop get request span start s with
  | case1 => exact absurd hloop (by simp)
  | case2 => exact absurd hloop (by simp)
  | case3 s hmore s1 hround last hlast hend =>
    obtain ⟨hfits, hcurrent, -, -⟩ := round_spec get request hround
    obtain ⟨hbound, rfl⟩ := checkedAdd_eq_some.mp hlast
    omega
  | case4 s hmore s1 hround last hlast hin ih =>
    obtain ⟨hfits, hcurrent, hone, hfull⟩ := round_spec get request hround
    exact ih (by omega) (by omega) (fun hlimit => ⟨s1.currentId, hfull hlimit, by omega⟩) hloop
  | case5 s hfull =>
    obtain rfl := Option.some.inj hloop
    exact hnext (by omega)

end Page

/-! ## All pages -/

section Pages

variable {isAlphanumeric : Char → Bool} {codec : Codec P}
  {collections : String → Option (Collection P D)} {name : String} {request : ScrollRequest F}
  {c : Collection P D}

/-- Where the listing goes on after the first so many points. -/
def after (live : List (Nat × RetrievedVector P)) : Nat → Nat
  | 0 => 0
  | k + 1 => (live[k]?).elim 0 fun point => point.1 + 1

def pageStart (live : List (Nat × RetrievedVector P)) (limit page : Nat) : Nat :=
  after live (page * limit)

/-- Each point is at most 100000 ids behind the start of its page, and the last page ends below the
largest id. -/
structure Reached (live : List (Nat × RetrievedVector P)) (limit : Nat) : Prop where
  near : ∀ page, ∀ point ∈ (live.drop (page * limit)).take limit,
    point.1 ≤ pageStart live limit page + scrollSpan
  fits : pageStart live limit (live.length / limit) + scrollSpan + 1 < 2 ^ 64

/-- The listing of the points, as the request wants them. -/
def listing (request : ScrollRequest F) (live : List (Nat × RetrievedVector P)) :
    List (PointStruct P) :=
  live.map fun point => pointStruct request point.1 point.2

theorem LiveFrom.tail {get : Nat → Except RTDBError (Option (RetrievedVector P))} {currentId : Nat}
    {point : Nat × RetrievedVector P} {rest : List (Nat × RetrievedVector P)}
    (hlive : LiveFrom get currentId (point :: rest)) : LiveFrom get (point.1 + 1) rest := by
  have hlater := List.pairwise_cons.mp hlive.sorted
  refine ⟨hlater.2, fun id vector => ?_⟩
  constructor
  · intro hmem
    exact ⟨hlater.1 _ hmem, ((hlive.holds id vector).mp (List.mem_cons_of_mem _ hmem)).2⟩
  · rintro ⟨hle, hget⟩
    have hfrom := ((hlive.holds point.1 point.2).mp List.mem_cons_self).1
    rcases List.mem_cons.mp ((hlive.holds id vector).mpr ⟨by omega, hget⟩) with heq | hmem
    · have hid : id = point.1 := congrArg Prod.fst heq
      omega
    · exact hmem

theorem LiveFrom.drop {get : Nat → Except RTDBError (Option (RetrievedVector P))}
    {live : List (Nat × RetrievedVector P)} (hlive : LiveFrom get 0 live) {k : Nat}
    (hk : k ≤ live.length) : LiveFrom get (after live k) (live.drop k) := by
  induction k with
  | zero => exact hlive
  | succ k ih =>
    have hcons := List.drop_eq_getElem_cons (show k < live.length by omega)
    have hdrop := ih (by omega)
    rw [hcons] at hdrop
    rw [after, List.getElem?_eq_getElem (show k < live.length by omega)]
    exact hdrop.tail

theorem after_mono {get : Nat → Except RTDBError (Option (RetrievedVector P))}
    {live : List (Nat × RetrievedVector P)} (hlive : LiveFrom get 0 live) {k m : Nat}
    (hkm : k ≤ m) (hm : m ≤ live.length) : after live k ≤ after live m := by
  rcases Nat.eq_or_lt_of_le hkm with rfl | hlt
  · exact Nat.le_refl _
  · obtain ⟨m, rfl⟩ := Nat.exists_eq_add_one_of_ne_zero (n := m) (by omega)
    have hmem : live[m] ∈ live.drop k := by
      rw [List.mem_drop_iff_getElem]
      exact ⟨m - k, by omega, by congr 1; omega⟩
    have hge := (((hlive.drop (by omega)).holds live[m].1 live[m].2).mp hmem).1
    rw [after, List.getElem?_eq_getElem (by omega)]
    exact hge.trans (Nat.le_succ _)

theorem scrollPoints_eq (hname : validateCollectionName isAlphanumeric name = .ok ())
    (hlimit : validateLimit request.limit = .ok ()) (hc : collections name = some c)
    (offset : Option PointId) :
    scrollPoints isAlphanumeric codec collections name { request with offset } =
      (scrollLoop (c.get codec) { request with offset } scrollSpan (startId offset)
        { points := [], nextOffset := none, currentId := startId offset, collected := 0 }).map
          fun s => .ok { points := s.points, nextPageOffset := s.nextOffset } := by
  rw [scrollPoints, hname, hlimit, hc]
  rfl

theorem scrollPoints_page (hname : validateCollectionName isAlphanumeric name = .ok ())
    (hlimit : validateLimit request.limit = .ok ()) (hc : collections name = some c)
    {offset : Option PointId} {live : List (Nat × RetrievedVector P)}
    (hlive : LiveFrom (c.get codec) (startId offset) live)
    (hfits : startId offset + scrollSpan + 1 < 2 ^ 64) :
    scrollPoints isAlphanumeric codec collections name { request with offset } =
      some (.ok
        { points := listing request ((window scrollSpan (startId offset) live).take request.limit)
          nextPageOffset := ((window scrollSpan (startId offset) live)[request.limit - 1]?).map
            fun point => .integer (point.1 + 1) }) := by
  have hpos := (validateLimit_ok request.limit).mp hlimit
  obtain ⟨s, hloop, hpoints, hnext⟩ := scrollLoop_eq { request with offset } hfits
    (s := { points := [], nextOffset := none, currentId := startId offset, collected := 0 })
    hlive (Nat.le_add_right _ _) hpos.1 rfl
  rw [scrollPoints_eq hname hlimit hc, hloop, Option.map_some, hpoints, hnext, List.nil_append]
  rfl

/-- Behind a page that can overflow, every page can. -/
theorem scrollFrom_overflow (hname : validateCollectionName isAlphanumeric name = .ok ())
    (hlimit : validateLimit request.limit = .ok ()) (hc : collections name = some c) (calls : Nat)
    {offset : Option PointId} (hover : 2 ^ 64 ≤ startId offset + scrollSpan + 1) :
    scrollFrom isAlphanumeric codec collections name request calls offset = none := by
  have hpos := (validateLimit_ok request.limit).mp hlimit
  induction calls generalizing offset with
  | zero => rfl
  | succ calls ih =>
    rw [scrollFrom, scrollPoints_eq hname hlimit hc]
    cases hloop : scrollLoop (c.get codec) { request with offset } scrollSpan (startId offset)
        { points := [], nextOffset := none, currentId := startId offset, collected := 0 } with
    | none => rfl
    | some s =>
      obtain ⟨next, hnext, hlater⟩ := scrollLoop_overflow hover (Nat.le_refl _) (Nat.zero_le _)
        (fun hzero => absurd hpos.1 (by dsimp only at hzero; omega)) hloop
      have hrest : scrollFrom isAlphanumeric codec collections name request calls
          (some (.integer next)) = none := ih (by rw [startId]; omega)
      rw [Option.map_some]
      dsimp only
      rw [hnext]
      dsimp only
      rw [hrest, Option.map_none]

theorem scrollFrom_last {offset : Option PointId} {points : List (PointStruct P)}
    (hpage : scrollPoints isAlphanumeric codec collections name { request with offset } =
      some (.ok { points, nextPageOffset := none })) (all : List (PointStruct P)) :
    (∃ calls, scrollFrom isAlphanumeric codec collections name request calls offset = some all) ↔
      points = all := by
  constructor
  · rintro ⟨calls, hall⟩
    cases calls with
    | zero => exact absurd hall (by simp [scrollFrom])
    | succ calls =>
      rw [scrollFrom, hpage] at hall
      exact Option.some.inj hall
  · rintro rfl
    exact ⟨1, by rw [scrollFrom, hpage]⟩

theorem scrollFrom_more {offset : Option PointId} {next : PointId}
    {points : List (PointStruct P)}
    (hpage : scrollPoints isAlphanumeric codec collections name { request with offset } =
      some (.ok { points, nextPageOffset := some next })) (rest : List (PointStruct P)) :
    (∃ calls, scrollFrom isAlphanumeric codec collections name request calls offset =
        some (points ++ rest)) ↔
      ∃ calls, scrollFrom isAlphanumeric codec collections name request calls (some next) =
        some rest := by
  constructor
  · rintro ⟨calls, hall⟩
    cases calls with
    | zero => exact absurd hall (by simp [scrollFrom])
    | succ calls =>
      rw [scrollFrom, hpage] at hall
      obtain ⟨back, hback, happend⟩ := Option.map_eq_some_iff.mp hall
      exact ⟨calls, hback.trans (congrArg some (List.append_cancel_left happend))⟩
  · rintro ⟨calls, hrest⟩
    refine ⟨calls + 1, ?_⟩
    rw [scrollFrom, hpage]
    dsimp only
    rw [hrest, Option.map_some]

theorem window_near {start limit : Nat} {live : List (Nat × RetrievedVector P)}
    (hnear : ∀ point ∈ live.take limit, point.1 ≤ start + scrollSpan) :
    (window scrollSpan start live).take limit = live.take limit := by
  rw [window, List.take_takeWhile, List.takeWhile_eq_self_iff]
  exact fun point hpoint => decide_eq_true (hnear point hpoint)

theorem window_far {start limit : Nat} {live : List (Nat × RetrievedVector P)}
    (hfar : ¬∀ point ∈ live.take limit, point.1 ≤ start + scrollSpan) :
    ((window scrollSpan start live).take limit).length < (live.take limit).length := by
  rw [window, List.take_takeWhile]
  refine lt_of_le_of_ne (List.takeWhile_prefix _).length_le fun hlen => hfar fun point hpoint => ?_
  have hall := (List.takeWhile_prefix _).eq_of_length hlen
  exact of_decide_eq_true (List.takeWhile_eq_self_iff.mp hall point hpoint)

theorem getElem?_last {α : Type} {l : List α} {limit : Nat} (hpos : 1 ≤ limit) :
    l[limit - 1]? = (l.take limit)[limit - 1]? := by
  rw [List.getElem?_take_of_lt (by omega)]

/-- The next page starts behind the last point of a full one. -/
theorem pageStart_succ {live : List (Nat × RetrievedVector P)} {limit page : Nat} (hpos : 1 ≤ limit)
    (hfull : (page + 1) * limit ≤ live.length) :
    ∃ point, ((live.drop (page * limit)).take limit)[limit - 1]? = some point ∧
      pageStart live limit (page + 1) = point.1 + 1 := by
  rw [Nat.succ_mul] at hfull
  have hindex : page * limit + (limit - 1) < live.length := by omega
  refine ⟨live[page * limit + (limit - 1)], ?_, ?_⟩
  · rw [← getElem?_last hpos, List.getElem?_drop, List.getElem?_eq_getElem hindex]
  · have hsucc : (page + 1) * limit = page * limit + (limit - 1) + 1 := by
      rw [Nat.succ_mul]
      omega
    rw [pageStart, hsucc, after, List.getElem?_eq_getElem hindex]
    rfl

/-- The listing goes on to its end from a page exactly when every point from there on is near. -/
theorem scrollFrom_iff (hname : validateCollectionName isAlphanumeric name = .ok ())
    (hlimit : validateLimit request.limit = .ok ()) (hc : collections name = some c)
    {live : List (Nat × RetrievedVector P)} (hlive : LiveFrom (c.get codec) 0 live) {page : Nat}
    (hpage : page ≤ live.length / request.limit) {offset : Option PointId}
    (hoffset : startId offset = pageStart live request.limit page) :
    (∃ calls, scrollFrom isAlphanumeric codec collections name request calls offset =
        some (listing request (live.drop (page * request.limit)))) ↔
      (∀ later, page ≤ later → ∀ point ∈ (live.drop (later * request.limit)).take request.limit,
        point.1 ≤ pageStart live request.limit later + scrollSpan) ∧
      pageStart live request.limit (live.length / request.limit) + scrollSpan + 1 < 2 ^ 64 := by
  have hpos := ((validateLimit_ok request.limit).mp hlimit).1
  have hmul : page * request.limit ≤ live.length := (Nat.le_div_iff_mul_le hpos).mp hpage
  have hrest : LiveFrom (c.get codec) (startId offset) (live.drop (page * request.limit)) := by
    rw [hoffset]
    exact hlive.drop hmul
  by_cases hover : 2 ^ 64 ≤ startId offset + scrollSpan + 1
  · constructor
    · rintro ⟨calls, hall⟩
      rw [scrollFrom_overflow hname hlimit hc calls hover] at hall
      exact absurd hall (by simp)
    · rintro ⟨-, hfits⟩
      have hmono : pageStart live request.limit page ≤
          pageStart live request.limit (live.length / request.limit) :=
        after_mono hlive (Nat.mul_le_mul_right _ hpage) (Nat.div_mul_le_self _ _)
      omega
  · have hread := scrollPoints_page hname hlimit hc hrest (Nat.lt_of_not_le hover)
    rw [getElem?_last hpos] at hread
    by_cases hnear : ∀ point ∈ (live.drop (page * request.limit)).take request.limit,
        point.1 ≤ startId offset + scrollSpan
    · rw [window_near hnear] at hread
      rcases Nat.eq_or_lt_of_le hpage with rfl | hmore
      · have hshort : (live.drop (live.length / request.limit * request.limit)).length <
            request.limit := by
          have hrem := Nat.div_add_mod live.length request.limit
          have hlt := Nat.mod_lt live.length hpos
          rw [List.length_drop, Nat.mul_comm]
          omega
        rw [List.take_of_length_le hshort.le, List.getElem?_eq_none (by omega),
          Option.map_none] at hread
        refine iff_of_true ((scrollFrom_last hread _).mpr rfl) ⟨fun later hle => ?_, by omega⟩
        rcases Nat.eq_or_lt_of_le hle with rfl | hlater
        · exact hoffset ▸ hnear
        · have hout : live.length ≤ later * request.limit :=
            ((Nat.div_lt_iff_lt_mul hpos).mp hlater).le
          rw [List.drop_eq_nil_of_le hout, List.take_nil]
          exact fun point hpoint => absurd hpoint List.not_mem_nil
      · have hnext : (page + 1) * request.limit ≤ live.length :=
          (Nat.le_div_iff_mul_le hpos).mp hmore
        obtain ⟨point, hpoint, hstart⟩ := pageStart_succ hpos hnext
        rw [hpoint, Option.map_some, ← hstart] at hread
        have hsplit : listing request (live.drop (page * request.limit)) =
            listing request ((live.drop (page * request.limit)).take request.limit) ++
              listing request (live.drop ((page + 1) * request.limit)) := by
          rw [listing, listing, listing, ← List.map_append, Nat.succ_mul, ← List.drop_drop,
            List.take_append_drop]
        rw [hsplit, scrollFrom_more hread, scrollFrom_iff hname hlimit hc hlive hmore rfl]
        refine and_congr_left' ⟨fun hall later hle => ?_, fun hall later hle => ?_⟩
        · rcases Nat.eq_or_lt_of_le hle with rfl | hlater
          · exact hoffset ▸ hnear
          · exact hall later hlater
        · exact hall later (by omega)
    · have hstop := window_far hnear
      have hshort := List.length_take_le request.limit (live.drop (page * request.limit))
      rw [List.getElem?_eq_none (by omega), Option.map_none] at hread
      refine iff_of_false (fun hall => ?_) (fun hall => hnear (hoffset ▸ hall.1 page (Nat.le_refl _)))
      have hlen := congrArg List.length ((scrollFrom_last hread _).mp hall)
      rw [listing, listing, List.length_map, List.length_map] at hlen
      have hle := (List.take_sublist request.limit (live.drop (page * request.limit))).length_le
      omega
termination_by live.length / request.limit - page

/-- Scrolling through a collection with live points lists them all, each once and in the order of
their ids, exactly when the name of the collection is valid and each page reaches its points. -/
theorem scroll_complete_iff (isAlphanumeric : Char → Bool) (codec : Codec P)
    (collections : String → Option (Collection P D)) (name : String) (c : Collection P D)
    (hc : collections name = some c) (live : List (Nat × RetrievedVector P))
    (hlive : LiveFrom (c.get codec) 0 live) (request : ScrollRequest F)
    (hlimit : validateLimit request.limit = .ok ()) :
    (∃ calls, scrollFrom isAlphanumeric codec collections name request calls none =
        some (listing request live)) ↔
      validateCollectionName isAlphanumeric name = .ok () ∧ Reached live request.limit := by
  cases hname : validateCollectionName isAlphanumeric name with
  | error e =>
    refine iff_of_false ?_ (fun hboth => absurd hboth.1 (by simp))
    rintro ⟨calls, hall⟩
    cases calls with
    | zero => exact absurd hall (by simp [scrollFrom])
    | succ calls => exact absurd hall (by simp [scrollFrom, scrollPoints, hname, validated])
  | ok =>
    have hstart : startId none = pageStart live request.limit 0 := by
      rw [pageStart, Nat.zero_mul]
      rfl
    have hall := scrollFrom_iff hname hlimit hc hlive (Nat.zero_le _) hstart
    rw [Nat.zero_mul, List.drop_zero] at hall
    rw [hall, and_iff_right rfl]
    constructor
    · intro h
      exact ⟨fun page => h.1 page (Nat.zero_le _), h.2⟩
    · intro h
      exact ⟨fun page _ => h.near page, h.fits⟩

def stored (ids : List Nat) : Collection Nat Nat :=
  ((Collection.create { dimension := 1, distance := sampleDistance, hnswConfig := none }).upsert
    (textCodec [] []) (fun _ => 0)
    (ids.map fun id => { id, vector := { data := [0], payload := none }, timestamp := 1, level := 0 })).1

def pointsOf (ids : List Nat) : List (Nat × RetrievedVector Nat) :=
  ids.map fun id => (id, { id, vector := [0], payload := none })

def singleRequest : ScrollRequest Nat :=
  { offset := none, limit := 10, filter := none, withVector := none, withPayload := true }

theorem live_stored {ids : List Nat} (htables : (stored ids).storage.engine.tables = [])
    (hqueue : (stored ids).storage.engine.immutable.length = 0)
    (hputs : (stored ids).storage.engine.memtable.puts =
      ids.map fun id => (id, { data := [0], payload := none }))
    (hsorted : ids.Pairwise (· < ·)) :
    LiveFrom ((stored ids).get (textCodec [] [])) 0 (pointsOf ids) where
  sorted := List.pairwise_map.mpr hsorted
  holds id' vector := by
    have hmem := Collection.get_in_memory (textCodec [] []) (stored ids).storage htables hqueue id'
    rw [hputs] at hmem
    rw [pointsOf, List.mem_map, Collection.get]
    constructor
    · rintro ⟨id, hid, heq⟩
      obtain ⟨rfl, rfl⟩ := Prod.mk.inj heq
      rw [(hmem { data := [0], payload := none }).mpr (List.mem_map.mpr ⟨id, hid, rfl⟩)]
      exact ⟨Nat.zero_le _, rfl⟩
    · rintro ⟨-, hget⟩
      split at hget
      · exact absurd hget (by simp)
      · exact absurd hget (by simp)
      · next stored hstored =>
        obtain ⟨id, hid, heq⟩ := List.mem_map.mp ((hmem stored).mp hstored)
        obtain ⟨rfl, rfl⟩ := Prod.mk.inj heq
        exact ⟨id, hid, Prod.ext rfl (Option.some.inj (Except.ok.inj hget))⟩

/-- Three points on pages of two. -/
theorem scroll_complete_pages :
    ∃ calls, scrollFrom Char.isAlphanum (textCodec [] []) (fun _ => some (stored [7, 9, 12]))
      "points" { singleRequest with limit := 2 } calls none =
        some (listing { singleRequest with limit := 2 } (pointsOf [7, 9, 12])) := by
  refine (scroll_complete_iff Char.isAlphanum (textCodec [] [])
    (fun _ => some (stored [7, 9, 12])) "points" (stored [7, 9, 12]) rfl (pointsOf [7, 9, 12])
    (live_stored (by decide +kernel) (by decide +kernel) (by decide +kernel) (by decide))
    { singleRequest with limit := 2 } rfl).mpr
    ⟨by decide, fun page point hpoint => ?_, by decide⟩
  have hmem : point ∈ pointsOf [7, 9, 12] := List.mem_of_mem_drop (List.mem_of_mem_take hpoint)
  obtain ⟨id, hid, rfl⟩ := List.mem_map.mp hmem
  have hsmall : ∀ id ∈ [7, 9, 12], id ≤ scrollSpan := by decide
  exact (hsmall id hid).trans (Nat.le_add_left _ _)

/-- The first page does not reach the id 100001, and no other page is asked for. -/
theorem not_scroll_complete_single :
    LiveFrom ((stored [100001]).get (textCodec [] [])) 0 (pointsOf [100001]) ∧
      ¬∃ calls, scrollFrom Char.isAlphanum (textCodec [] []) (fun _ => some (stored [100001]))
        "points" singleRequest calls none = some (listing singleRequest (pointsOf [100001])) := by
  have hlive : LiveFrom ((stored [100001]).get (textCodec [] [])) 0 (pointsOf [100001]) :=
    live_stored (by decide +kernel) (by decide +kernel) (by decide +kernel) (by decide)
  have hname : validateCollectionName Char.isAlphanum "points" = .ok () := by decide
  refine ⟨hlive, fun hall => ?_⟩
  have hstart : startId none = pageStart (pointsOf [100001]) 10 0 := rfl
  have hfar := ((scrollFrom_iff (c := stored [100001]) hname rfl rfl hlive (Nat.zero_le _)
    hstart).mp hall).1 0 (Nat.le_refl _) _ List.mem_cons_self
  exact absurd hfar (by decide)

end Pages

end Qdrant
end Api
end RTDB
