import Mathlib.Algebra.GroupWithZero.Nat
import Mathlib.Data.List.GetD
import Mathlib.Data.Nat.Sqrt
import RTDB.Lib.Contest
import RTDB.Lib.Outcomes
import RTDB.Storage.Types

/-!
# Product and binary quantization

`index/quantization.rs`.  The arithmetic of `f32` is an input; of its comparison it is used that
NaN, which is less than nothing and than which nothing is less, is all that it can not tell apart.
-/

namespace RTDB
namespace Index
namespace Quantization

open Contest Outcomes Storage

variable {F : Type}

structure Floats (F : Type) where
  zero : F
  infinity : F
  add : F → F → F
  sub : F → F → F
  div : F → F → F
  square : F → F
  min : F → F → F
  ofUsize : Nat → F
  lt : F → F → Bool
  ranked : Ranked lt infinity
  lt_infinity : ∀ x y, lt x y → lt x infinity

inductive Error where
  | index (msg : String)
  | panic
  deriving DecidableEq, Repr

structure ProductQuantization (F : Type) where
  numSubspaces : Nat
  subvectorDim : Nat
  codebooks : List (List (List F))
  deriving DecidableEq, Repr

/-- `dim % m` panics for 0. -/
def ProductQuantization.new (dim m : Nat) : Except Error (ProductQuantization F) :=
  if m = 0 then .error .panic
  else if dim % m ≠ 0 then
    .error (.index
      ("Dimension " ++ Nat.repr dim ++ " must be divisible by M " ++ Nat.repr m))
  else .ok { numSubspaces := m, subvectorDim := dim / m, codebooks := [] }

/-- `v[start..start + n]`. -/
def slice (start n : Nat) (v : List F) : Except Error (List F) :=
  if start + n ≤ v.length then .ok ((v.drop start).take n) else .error .panic

section Floats

variable (fl : Floats F)

def l2DistanceSq (a b : List F) : F :=
  (List.zipWith (fun x y => fl.square (fl.sub x y)) a b).foldl fl.add fl.zero

def findNearest (centroids : List (List F)) (vector : List F) : Nat :=
  (contest fl.lt fl.infinity (centroids.map (l2DistanceSq fl vector))).2

/-! ## K-means -/

def farthest (vectors centroids : List (List F)) : Nat :=
  (contest (fun dist max => fl.lt max dist) fl.zero
    (vectors.map fun v => (centroids.map (l2DistanceSq fl v)).foldl fl.min fl.infinity)).2

/-- `n` more centroids, each the vector farthest from those before it. -/
def pickRemaining (vectors : List (List F)) : Nat → List (List F) → List (List F)
  | 0, centroids => centroids
  | n + 1, centroids =>
    pickRemaining vectors n (centroids ++ [vectors.getD (farthest fl vectors centroids) []])

def assignments (vectors : List (List F)) (k : Nat) (centroids : List (List F)) :
    List (List Nat) :=
  vectors.zipIdx.foldl
    (fun clusters v =>
      clusters.modify (findNearest fl centroids v.1) fun cluster => cluster ++ [v.2])
    (List.replicate k [])

def newCentroid (vectors : List (List F)) (dim : Nat) (cluster : List Nat) : List F :=
  (List.range dim).map fun d =>
    fl.div (cluster.foldl (fun sum i => fl.add sum ((vectors.getD i []).getD d fl.zero)) fl.zero)
      (fl.ofUsize cluster.length)

def lloyd (vectors : List (List F)) (dim k : Nat) (centroids : List (List F)) : List (List F) :=
  (assignments fl vectors k centroids).zipIdx.foldl
    (fun centroids cluster =>
      if cluster.1 = [] then centroids
      else centroids.set cluster.2 (newCentroid fl vectors dim cluster.1))
    centroids

/-- Without clusters the first assignment is out of range. -/
def kmeans (vectors : List (List F)) (k : Nat) : Except Error (List (List F)) :=
  match vectors with
  | [] => .ok []
  | first :: _ =>
    if k = 0 then .error .panic
    else
      .ok ((List.range 20).foldl (fun centroids _ => lloyd fl vectors first.length k centroids)
        (pickRemaining fl vectors (k - 1) [first]))

/-! ## Training, codes -/

namespace ProductQuantization

def train (pq : ProductQuantization F) (vectors : List (List F)) (k : Nat) :
    Except Error (ProductQuantization F) :=
  (List.range pq.numSubspaces).foldlM
    (fun pq m => do
      let subvectors ← vectors.mapM (slice (m * pq.subvectorDim) pq.subvectorDim)
      let centroids ← kmeans fl subvectors k
      .ok { pq with codebooks := pq.codebooks ++ [centroids] })
    pq

def encode (pq : ProductQuantization F) (vector : List F) : Except Error (List UInt8) :=
  (List.range pq.numSubspaces).mapM fun m => do
    let subvector ← slice (m * pq.subvectorDim) pq.subvectorDim vector
    match pq.codebooks[m]? with
    | some centroids => .ok (UInt8.ofNat (findNearest fl centroids subvector))
    | none => .error .panic

def decode (pq : ProductQuantization F) (codes : List UInt8) : Except Error (List F) :=
  codes.zipIdx.foldlM
    (fun data code =>
      match pq.codebooks[code.2]? with
      | some centroids => .ok (data ++ (centroids[code.1.toNat]?).getD [])
      | none => .error .panic)
    []

/-- The distance of a query from codes; a code without a centroid adds nothing. -/
def asymmetricDistance (sqrt : F → F) (pq : ProductQuantization F) (query : List F)
    (codes : List UInt8) : Except Error F :=
  ((List.range pq.numSubspaces).foldlM
    (fun distance m => do
      let subquery ← slice (m * pq.subvectorDim) pq.subvectorDim query
      match codes[m]?, pq.codebooks[m]? with
      | some code, some centroids =>
        .ok ((centroids[code.toNat]?).elim distance fun centroid =>
          fl.add distance (l2DistanceSq fl subquery centroid))
      | _, _ => .error .panic)
    fl.zero).map sqrt

/-- A quantization that has been trained on sets of vectors, each with its `k`. -/
def trained (dim m : Nat) (sets : List (List (List F) × Nat)) :
    Except Error (ProductQuantization F) := do
  let pq ← new dim m
  sets.foldlM (fun pq set => pq.train fl set.1 set.2) pq

end ProductQuantization

end Floats

/-! ## What training leaves -/

variable {fl : Floats F} {d k : Nat} {vectors centroids : List (List F)}

/-- The number of centroids, and that each has the dimension of the vectors. -/
def Shaped (d n : Nat) (centroids : List (List F)) : Prop :=
  (∀ c ∈ centroids, c.length = d) ∧ centroids.length = n

theorem pickRemaining_shaped (hne : vectors ≠ []) (hvectors : ∀ v ∈ vectors, v.length = d)
    (m : Nat) {n : Nat} (hcentroids : Shaped d n centroids) :
    Shaped d (n + m) (pickRemaining fl vectors m centroids) := by
  induction m generalizing n centroids with
  | zero => exact hcentroids
  | succ m ih =>
    have hfarthest : farthest fl vectors centroids < vectors.length := by
      have hlt := contest_snd_lt (fun dist max => fl.lt max dist) fl.zero
        (l := vectors.map fun v =>
          (centroids.map (l2DistanceSq fl v)).foldl fl.min fl.infinity) (by simpa using hne)
      rw [List.length_map] at hlt
      exact hlt
    have hmem : vectors.getD (farthest fl vectors centroids) [] ∈ vectors := by
      rw [List.getD_eq_getElem _ _ hfarthest]
      exact List.getElem_mem hfarthest
    have hnext : Shaped d (n + 1)
        (centroids ++ [vectors.getD (farthest fl vectors centroids) []]) := by
      refine ⟨forall_mem_concat hcentroids.1 (hvectors _ hmem), ?_⟩
      rw [List.length_append, hcentroids.2, List.length_singleton]
    rw [pickRemaining, Nat.add_succ, ← Nat.succ_add]
    exact ih hnext

theorem lloyd_shaped {n : Nat} (hcentroids : Shaped d n centroids) :
    Shaped d n (lloyd fl vectors d k centroids) := by
  rw [lloyd]
  refine List.foldlRecOn _ _ hcentroids fun cs hcs cluster _ => ?_
  by_cases hempty : cluster.1 = []
  · rw [if_pos hempty]
    exact hcs
  · rw [if_neg hempty]
    refine ⟨fun c hc => ?_, by rw [List.length_set, hcs.2]⟩
    rcases List.mem_or_eq_of_mem_set hc with hc | rfl
    · exact hcs.1 c hc
    · rw [newCentroid, List.length_map, List.length_range]

theorem kmeans_shaped (hvectors : ∀ v ∈ vectors, v.length = d) {book : List (List F)}
    (hbook : kmeans fl vectors k = .ok book) :
    Shaped d (if vectors = [] then 0 else k) book := by
  cases vectors with
  | nil =>
    obtain rfl := Except.ok.inj hbook
    exact ⟨by simp, rfl⟩
  | cons first rest =>
    rw [kmeans] at hbook
    split at hbook
    · exact absurd hbook (by simp)
    · next hk =>
      obtain rfl := Except.ok.inj hbook
      have hfirst := hvectors first List.mem_cons_self
      rw [if_neg (by simp), hfirst]
      refine List.foldlRecOn _ _ ?_ fun cs hcs _ _ => lloyd_shaped hcs
      have hstart : Shaped d 1 [first] := ⟨by simpa using hfirst, rfl⟩
      have hpick : Shaped d (1 + (k - 1)) (pickRemaining fl (first :: rest) (k - 1) [first]) :=
        pickRemaining_shaped (by simp) hvectors (k - 1) hstart
      rw [Nat.add_sub_cancel' (Nat.one_le_iff_ne_zero.mpr hk)] at hpick
      exact hpick

namespace ProductQuantization

variable {pq pq' pq'' : ProductQuantization F} {m n : Nat} {v data : List F}

/-- `n` codebooks more, all of a property. -/
structure Extends (p : List (List F) → Prop) (pq pq' : ProductQuantization F) (n : Nat) : Prop where
  numSubspaces : pq'.numSubspaces = pq.numSubspaces
  subvectorDim : pq'.subvectorDim = pq.subvectorDim
  codebooks : ∃ books, pq'.codebooks = pq.codebooks ++ books ∧ books.length = n ∧
    ∀ book ∈ books, p book

variable {p q : List (List F) → Prop}

theorem Extends.refl (pq : ProductQuantization F) : Extends p pq pq 0 :=
  ⟨rfl, rfl, [], by simp⟩

theorem Extends.trans {n' : Nat} (hfirst : Extends p pq pq' n) (hrest : Extends p pq' pq'' n') :
    Extends p pq pq'' (n + n') := by
  obtain ⟨books, hbooks, hlength, hall⟩ := hfirst.codebooks
  obtain ⟨books', hbooks', hlength', hall'⟩ := hrest.codebooks
  refine ⟨hrest.numSubspaces.trans hfirst.numSubspaces,
    hrest.subvectorDim.trans hfirst.subvectorDim, books ++ books', ?_, ?_, fun book hbook => ?_⟩
  · rw [hbooks', hbooks, List.append_assoc]
  · rw [List.length_append, hlength, hlength']
  · rcases List.mem_append.mp hbook with hbook | hbook
    · exact hall book hbook
    · exact hall' book hbook

theorem Extends.imp (hextends : Extends p pq pq' n) (himp : ∀ book, p book → q book) :
    Extends q pq pq' n := by
  obtain ⟨books, hbooks, hlength, hall⟩ := hextends.codebooks
  exact ⟨hextends.numSubspaces, hextends.subvectorDim, books, hbooks, hlength,
    fun book hbook => himp book (hall book hbook)⟩

/-- A loop extends by what its steps extend by. -/
theorem extends_foldlM {α : Type}
    {f : ProductQuantization F → α → Except Error (ProductQuantization F)}
    (hm : pq.numSubspaces = m) (hd : pq.subvectorDim = d)
    (hf : ∀ pq a pq', pq.numSubspaces = m → pq.subvectorDim = d → f pq a = .ok pq' →
      Extends p pq pq' n)
    {l : List α} (hloop : l.foldlM f pq = .ok pq') : Extends p pq pq' (l.length * n) := by
  induction l generalizing pq with
  | nil =>
    obtain rfl := Except.ok.inj hloop
    rw [List.length_nil, Nat.zero_mul]
    exact Extends.refl pq
  | cons a l ih =>
    rw [List.foldlM_cons] at hloop
    obtain ⟨next, hfirst, hloop⟩ := bind_eq_ok hloop
    have hnext := hf pq a next hm hd hfirst
    rw [List.length_cons, Nat.succ_mul, Nat.add_comm]
    exact hnext.trans
      (ih (hnext.numSubspaces.trans hm) (hnext.subvectorDim.trans hd) hloop)

theorem length_of_slice {start : Nat} {w : List F} (hslice : slice start n v = .ok w) :
    w.length = n := by
  rw [slice] at hslice
  split at hslice
  · next hfits =>
    obtain rfl := Except.ok.inj hslice
    rw [List.length_take, List.length_drop]
    omega
  · exact absurd hslice (by simp)

theorem train_extends (hd : pq.subvectorDim = d) (htrain : pq.train fl vectors k = .ok pq') :
    Extends (Shaped d (if vectors = [] then 0 else k)) pq pq' pq.numSubspaces := by
  have hloop := extends_foldlM (p := Shaped d (if vectors = [] then 0 else k)) (n := 1) rfl hd
    (fun pq m pq' _ hd hstep => ?_) htrain
  · rw [List.length_range, Nat.mul_one] at hloop
    exact hloop
  · obtain ⟨subvectors, hslices, hstep⟩ := bind_eq_ok hstep
    obtain ⟨book, hbook, hstep⟩ := bind_eq_ok hstep
    obtain rfl := Except.ok.inj hstep
    have hsubvectors : ∀ w ∈ subvectors, w.length = d := by
      intro w hw
      obtain ⟨i, hi⟩ := List.mem_iff_getElem?.mp hw
      obtain ⟨v, -, hslice⟩ := (getElem?_of_mapM hslices i).2 w hi
      exact (length_of_slice hslice).trans hd
    have hnil : subvectors = [] ↔ vectors = [] := by
      rw [← List.length_eq_zero_iff, ← (mapM_eq_ok_iff.mp hslices).length_eq,
        List.length_eq_zero_iff]
    have hshaped := kmeans_shaped hsubvectors hbook
    simp only [hnil] at hshaped
    refine ⟨rfl, rfl, [book], rfl, rfl, fun other hother => ?_⟩
    rw [List.mem_singleton.mp hother]
    exact hshaped

/-- Every subspace has a codebook, and the parts make up the dimension. -/
structure Usable (dim : Nat) (pq : ProductQuantization F) : Prop where
  dim : dim = pq.numSubspaces * pq.subvectorDim
  enough : pq.numSubspaces ≤ pq.codebooks.length
  dims : ∀ book ∈ pq.codebooks, ∀ c ∈ book, c.length = pq.subvectorDim

theorem usable_of_trained {dim : Nat} {sets : List (List (List F) × Nat)} (hsets : sets ≠ [])
    (htrained : trained fl dim m sets = .ok pq) : Usable dim pq := by
  obtain ⟨start, hnew, hloop⟩ := bind_eq_ok htrained
  have hextends := extends_foldlM (p := fun book => ∀ c ∈ book, c.length = start.subvectorDim) rfl
    rfl (fun pq set pq' hm hd htrain => hm ▸ (train_extends hd htrain).imp fun _ => And.left) hloop
  rw [new] at hnew
  split at hnew
  · exact absurd hnew (by simp)
  · next hm =>
    split at hnew
    · exact absurd hnew (by simp)
    · next hmod =>
      obtain rfl := Except.ok.inj hnew
      obtain ⟨books, hbooks, hlength, hdims⟩ := hextends.codebooks
      rw [List.nil_append] at hbooks
      refine ⟨?_, ?_, ?_⟩
      · rw [hextends.numSubspaces, hextends.subvectorDim]
        exact (Nat.mul_div_cancel' (Nat.dvd_of_mod_eq_zero (not_not.mp hmod))).symm
      · rw [hbooks, hlength, hextends.numSubspaces]
        exact Nat.le_mul_of_pos_left m (List.length_pos_iff.mpr hsets)
      · rw [hbooks, hextends.subvectorDim]
        exact hdims

/-! ## What codes stand for -/

variable (fl : Floats F) (pq : ProductQuantization F) (v : List F) (m : Nat)

def codebook : List (List F) := pq.codebooks.getD m []

def lastCodebook : List (List F) :=
  pq.codebooks.getD (pq.codebooks.length - pq.numSubspaces + m) []

def subvector : List F := (v.drop (m * pq.subvectorDim)).take pq.subvectorDim

def code : UInt8 := UInt8.ofNat (findNearest fl (pq.codebook m) (pq.subvector v m))

/-- What is decoded for a subspace. -/
def part : List F := ((pq.codebook m)[(pq.code fl v m).toNat]?).getD []

/-- A centroid than which none is nearer. -/
def Nearest (book : List (List F)) (w c : List F) : Prop :=
  c ∈ book ∧ ∀ d ∈ book, fl.lt (l2DistanceSq fl w d) (l2DistanceSq fl w c) = false

/-- Decoding gives a nearest centroid of the training in each subspace. -/
def DecodesToNearest : Prop :=
  ∃ data, (pq.encode fl v >>= pq.decode) = .ok data ∧ data.length = v.length ∧
    ∃ cs : List (List F), data = cs.flatten ∧ cs.length = pq.numSubspaces ∧
      ∀ m c, cs[m]? = some c → Nearest fl (pq.lastCodebook m) (pq.subvector v m) c

/-- The place of the first nearest centroid, in the codebook that a subspace is encoded by, has a
low byte that is the place of a nearest centroid of the last training.  For dimension 0 any will do. -/
def Served : Prop :=
  ∃ c, Nearest fl (pq.lastCodebook m) (pq.subvector v m) c ∧
    (c = [] ∨ ∃ i, FirstBest fl.lt fl.infinity
        ((pq.codebook m).map (l2DistanceSq fl (pq.subvector v m))) i ∧
      (pq.codebook m)[i % 256]? = some c)

variable {fl pq v m} {dim : Nat}

theorem encode_eq (husable : Usable dim pq) (hv : v.length = dim) :
    pq.encode fl v = .ok ((List.range pq.numSubspaces).map (pq.code fl v)) := by
  refine mapM_eq_map fun m hm => ?_
  have hlt := List.mem_range.mp hm
  have hbook : m < pq.codebooks.length := Nat.lt_of_lt_of_le hlt husable.enough
  have hfits : m * pq.subvectorDim + pq.subvectorDim ≤ v.length := by
    rw [hv, husable.dim, ← Nat.succ_mul]
    exact Nat.mul_le_mul_right _ hlt
  rw [slice, if_pos hfits, ok_bind, List.getElem?_eq_getElem hbook]
  simp only [code, codebook, List.getD_eq_getElem _ _ hbook, subvector]

theorem zipIdx_map_range {α : Type} (f : Nat → α) (n : Nat) :
    ((List.range n).map f).zipIdx = (List.range n).map fun m => (f m, m) := by
  refine List.ext_getElem (by simp) fun i hi hi' => ?_
  simp

theorem decode_eq (husable : Usable dim pq) :
    pq.decode ((List.range pq.numSubspaces).map (pq.code fl v)) =
      .ok ((List.range pq.numSubspaces).flatMap (pq.part fl v)) := by
  rw [decode, zipIdx_map_range,
    foldlM_eq_foldl (g := fun data c => data ++ ((pq.codebook c.2)[c.1.toNat]?).getD []) ?_,
    List.foldl_map, List.flatMap_eq_foldl]
  · rfl
  · intro data c hc
    obtain ⟨m, hm, rfl⟩ := List.mem_map.mp hc
    have hbook : m < pq.codebooks.length :=
      Nat.lt_of_lt_of_le (List.mem_range.mp hm) husable.enough
    simp only [codebook, List.getElem?_eq_getElem hbook, List.getD_eq_getElem _ _ hbook]

theorem dims_codebook (husable : Usable dim pq) {i : Nat} {c : List F}
    (hc : c ∈ pq.codebooks.getD i []) : c.length = pq.subvectorDim := by
  by_cases hi : i < pq.codebooks.length
  · rw [List.getD_eq_getElem _ _ hi] at hc
    exact husable.dims _ (List.getElem_mem hi) c hc
  · rw [List.getD_eq_default _ _ (Nat.not_lt.mp hi)] at hc
    exact absurd hc List.not_mem_nil

theorem part_cases (fl : Floats F) (pq : ProductQuantization F) (v : List F) (m : Nat) :
    pq.part fl v m = [] ∨ (pq.codebook m)[(pq.code fl v m).toNat]? = some (pq.part fl v m) := by
  rw [part]
  cases hc : (pq.codebook m)[(pq.code fl v m).toNat]? with
  | none => exact Or.inl rfl
  | some c => exact Or.inr rfl

theorem length_part_le (husable : Usable dim pq) :
    (pq.part fl v m).length ≤ pq.subvectorDim := by
  rcases part_cases fl pq v m with hnone | hsome
  · rw [hnone]
    exact Nat.zero_le _
  · exact Nat.le_of_eq (dims_codebook husable (List.mem_of_getElem? hsome))

theorem toNat_code (fl : Floats F) (pq : ProductQuantization F) (v : List F) (m : Nat) :
    (pq.code fl v m).toNat = findNearest fl (pq.codebook m) (pq.subvector v m) % 256 := by
  rw [code, UInt8.toNat_ofNat']

theorem served_iff (husable : Usable dim pq) :
    pq.Served fl v m ↔ Nearest fl (pq.lastCodebook m) (pq.subvector v m) (pq.part fl v m) := by
  constructor
  · rintro ⟨c, hnearest, hc⟩
    suffices hpart : pq.part fl v m = c by
      rw [hpart]
      exact hnearest
    rcases hc with rfl | ⟨i, hi, hc⟩
    · have hdim := dims_codebook husable hnearest.1
      refine List.eq_nil_of_length_eq_zero ?_
      have hle : (pq.part fl v m).length ≤ pq.subvectorDim := length_part_le husable
      rw [← hdim] at hle
      exact Nat.le_zero.mp hle
    · obtain rfl := hi.unique (firstBest_contest fl.ranked _)
      rw [part, toNat_code, findNearest, hc, Option.getD_some]
  · intro hnearest
    refine ⟨_, hnearest, (part_cases fl pq v m).imp_right fun hsome => ?_⟩
    rw [toNat_code] at hsome
    exact ⟨_, firstBest_contest fl.ranked _, hsome⟩

theorem length_flatten_le {α : Type} {d : Nat} {bs : List (List α)}
    (hbs : ∀ b ∈ bs, b.length ≤ d) : bs.flatten.length ≤ bs.length * d := by
  induction bs with
  | nil => simp
  | cons b bs ih =>
    obtain ⟨hb, hbs⟩ := List.forall_mem_cons.mp hbs
    rw [List.flatten_cons, List.length_append, List.length_cons, Nat.succ_mul]
    have hrest := ih hbs
    omega

theorem length_flatten_eq {α : Type} {d : Nat} {as : List (List α)}
    (has : ∀ a ∈ as, a.length = d) : as.flatten.length = as.length * d := by
  induction as with
  | nil => simp
  | cons a as ih =>
    obtain ⟨ha, has⟩ := List.forall_mem_cons.mp has
    rw [List.flatten_cons, List.length_append, List.length_cons, Nat.succ_mul, ih has]
    omega

/-- Parts of one length are what they make up together, against parts that are no longer. -/
theorem eq_of_flatten_eq {α : Type} {d : Nat} {as bs : List (List α)}
    (hlength : as.length = bs.length) (has : ∀ a ∈ as, a.length = d)
    (hbs : ∀ b ∈ bs, b.length ≤ d) (hflatten : as.flatten = bs.flatten) : as = bs := by
  induction as generalizing bs with
  | nil => exact (List.length_eq_zero_iff.mp hlength.symm).symm
  | cons a as ih =>
    cases bs with
    | nil => exact absurd hlength (by simp)
    | cons b bs =>
      obtain ⟨ha, has⟩ := List.forall_mem_cons.mp has
      have hrest := (List.forall_mem_cons.mp hbs).2
      rw [List.length_cons, List.length_cons, Nat.succ_inj] at hlength
      have htotal := congrArg List.length hflatten
      rw [List.flatten_cons, List.flatten_cons, List.length_append, List.length_append,
        length_flatten_eq has, hlength] at htotal
      have hb := hbs b List.mem_cons_self
      have hle := length_flatten_le hrest
      obtain ⟨hfirst, hmore⟩ := List.append_inj hflatten (by omega)
      rw [hfirst, ih hlength has hrest hmore]

/-- What is decoded is nearest, part by part, when the low bytes serve all subspaces. -/
theorem decodesToNearest_iff (husable : Usable dim pq) (hv : v.length = dim) :
    pq.DecodesToNearest fl v ↔ ∀ m < pq.numSubspaces, pq.Served fl v m := by
  have hdata : (pq.encode fl v >>= pq.decode) =
      .ok ((List.range pq.numSubspaces).map (pq.part fl v)).flatten := by
    rw [encode_eq husable hv, ok_bind, decode_eq husable, List.flatMap_def]
  constructor
  · rintro ⟨data, hdecoded, -, cs, rfl, hlength, hnearest⟩ m hm
    rw [hdata] at hdecoded
    have hparts : cs = (List.range pq.numSubspaces).map (pq.part fl v) := by
      refine eq_of_flatten_eq (d := pq.subvectorDim) (by simpa using hlength) (fun c hc => ?_)
        (fun c hc => ?_) (Except.ok.inj hdecoded).symm
      · obtain ⟨m, hm⟩ := List.mem_iff_getElem?.mp hc
        exact dims_codebook husable (hnearest m c hm).1
      · obtain ⟨m, -, rfl⟩ := List.mem_map.mp hc
        exact length_part_le husable
    refine (served_iff husable).mpr (hnearest m _ ?_)
    rw [hparts, List.getElem?_map, List.getElem?_range hm, Option.map_some]
  · intro hserved
    refine ⟨_, hdata, ?_, _, rfl, by simp, fun m c hc => ?_⟩
    · rw [length_flatten_eq (d := pq.subvectorDim), hv, husable.dim, List.length_map,
        List.length_range]
      intro c hc
      obtain ⟨m, hm, rfl⟩ := List.mem_map.mp hc
      have hnearest := (served_iff husable).mp (hserved m (List.mem_range.mp hm))
      exact dims_codebook husable hnearest.1
    · rw [List.getElem?_map, Option.map_eq_some_iff] at hc
      obtain ⟨i, hi, rfl⟩ := hc
      obtain ⟨hlt, rfl⟩ := List.getElem?_eq_some_iff.mp hi
      rw [List.length_range] at hlt
      rw [List.getElem_range]
      exact (served_iff husable).mp (hserved m hlt)

/-! ## Distances from codes -/

/-- The codebooks in use are those of the first training. -/
theorem length_codebook_of_first {more : List (List (List F) × Nat)} (hne : vectors ≠ [])
    (htrained : trained fl dim n ((vectors, k) :: more) = .ok pq) (hm : m < pq.numSubspaces) :
    (pq.codebook m).length = k := by
  obtain ⟨start, hnew, hloop⟩ := bind_eq_ok htrained
  rw [List.foldlM_cons] at hloop
  obtain ⟨first, htrain, hloop⟩ := bind_eq_ok hloop
  have hstart : start.codebooks = [] := by
    rw [new] at hnew
    split at hnew
    · exact absurd hnew (by simp)
    · split at hnew
      · exact absurd hnew (by simp)
      · rw [← Except.ok.inj hnew]
  have hfirst := train_extends rfl htrain
  obtain ⟨books, hbooks, hlength, hall⟩ := hfirst.codebooks
  rw [hstart, List.nil_append] at hbooks
  have hrest := extends_foldlM (p := fun _ => True) rfl rfl
    (fun _ _ _ hm hd htrain => hm ▸ (train_extends hd htrain).imp fun _ _ => trivial) hloop
  obtain ⟨later, hlater, -⟩ := hrest.codebooks
  have hin : m < books.length := by
    rw [hlength, ← hfirst.numSubspaces, ← hrest.numSubspaces]
    exact hm
  have hshaped := hall books[m] (List.getElem_mem hin)
  rw [if_neg hne] at hshaped
  rw [codebook, hlater, hbooks, List.getD_append _ _ _ _ hin, List.getD_eq_getElem _ _ hin]
  exact hshaped.2

variable (fl v) in
/-- Among up to 256 centroids of the codebook in use the code names a nearest one. -/
theorem code_nearest (hne : pq.codebook m ≠ []) (hsmall : (pq.codebook m).length ≤ 256) :
    ∃ c, (pq.codebook m)[(pq.code fl v m).toNat]? = some c ∧
      Nearest fl (pq.codebook m) (pq.subvector v m) c := by
  have hlt := contest_snd_lt fl.lt fl.infinity
    (l := (pq.codebook m).map (l2DistanceSq fl (pq.subvector v m))) (by simpa using hne)
  rw [List.length_map] at hlt
  have hbest := firstBest_contest fl.ranked
    ((pq.codebook m).map (l2DistanceSq fl (pq.subvector v m)))
  refine ⟨(pq.codebook m).get ⟨_, hlt⟩, ?_, List.get_mem _ _, fun d hd => ?_⟩
  · rw [toNat_code, findNearest, Nat.mod_eq_of_lt (Nat.lt_of_lt_of_le hlt hsmall),
      List.getElem?_eq_getElem hlt]
    rfl
  · exact hbest.unbeaten fl.lt_infinity (by simp [hlt]) (List.mem_map_of_mem hd)

def addPart (fl : Floats F) (pq : ProductQuantization F) (query : List F) (codes : List UInt8)
    (distance : F) (m : Nat) : F :=
  ((pq.codebook m)[(codes.getD m 0).toNat]?).elim distance fun centroid =>
    fl.add distance (l2DistanceSq fl (pq.subvector query m) centroid)

theorem asymmetricDistance_eq {sqrt : F → F} {codes : List UInt8} (husable : Usable dim pq)
    (hv : v.length = dim) (hcodes : pq.numSubspaces ≤ codes.length) :
    pq.asymmetricDistance fl sqrt v codes =
      .ok (sqrt ((List.range pq.numSubspaces).foldl (addPart fl pq v codes) fl.zero)) := by
  rw [asymmetricDistance, foldlM_eq_foldl (g := addPart fl pq v codes) ?_]
  · rfl
  · intro distance m hm
    have hlt := List.mem_range.mp hm
    have hbook : m < pq.codebooks.length := Nat.lt_of_lt_of_le hlt husable.enough
    have hcode : m < codes.length := Nat.lt_of_lt_of_le hlt hcodes
    have hfits : m * pq.subvectorDim + pq.subvectorDim ≤ v.length := by
      rw [hv, husable.dim, ← Nat.succ_mul]
      exact Nat.mul_le_mul_right _ hlt
    rw [slice, if_pos hfits, ok_bind, List.getElem?_eq_getElem hbook,
      List.getElem?_eq_getElem hcode]
    simp only [addPart, codebook, List.getD_eq_getElem _ _ hbook, List.getD_eq_getElem _ _ hcode,
      subvector]

/-- Two loops of which one never falls below the other. -/
theorem foldl_not_lt {f g : F → Nat → F} {l : List Nat} {x y : F}
    (hstep : ∀ m ∈ l, ∀ x y, fl.lt y x = false → fl.lt (g y m) (f x m) = false)
    (hstart : fl.lt y x = false) : fl.lt (l.foldl g y) (l.foldl f x) = false := by
  induction l generalizing x y with
  | nil => exact hstart
  | cons m l ih =>
    exact ih (fun m hm => hstep m (List.mem_cons_of_mem _ hm)) (hstep m List.mem_cons_self x y hstart)

end ProductQuantization

/-! ## Small integers -/

/-- The integers among the values of `f32`, and infinity. -/
def sampleLt : Option Int → Option Int → Bool
  | some x, some y => x < y
  | some _, none => true
  | none, _ => false

def sampleFloats : Floats (Option Int) where
  zero := some 0
  infinity := none
  add := fun x y => x.bind fun x => y.map fun y => x + y
  sub := fun x y => x.bind fun x => y.map fun y => x - y
  div := fun x y => x.bind fun x => y.map fun y => x / y
  square := fun x => x.map fun x => x * x
  min := fun x y => if sampleLt y x then y else x
  ofUsize := fun n => some n
  lt := sampleLt
  ranked :=
    { irrefl := by rintro (_ | x) <;> simp [sampleLt]
      trans := by
        rintro (_ | x) (_ | y) (_ | z) <;> simp [sampleLt]
        omega
      apart := by
        rintro (_ | x) (_ | y) (_ | z) <;> simp [sampleLt]
        omega }
  lt_infinity := by rintro (_ | x) (_ | y) <;> simp [sampleLt]

/-- The square root, of a square. -/
def sampleSqrt (x : Option Int) : Option Int := x.map fun x => (Nat.sqrt x.toNat : Int)

theorem sample_add_not_lt (a b c d : Option Int) (hab : sampleLt b a = false)
    (hcd : sampleLt d c = false) :
    sampleLt (sampleFloats.add b d) (sampleFloats.add a c) = false := by
  cases a <;> cases b <;> cases c <;> cases d <;>
    simp_all [sampleFloats, sampleLt]
  omega

theorem sample_sqrt_not_lt (a b : Option Int) (hab : sampleLt b a = false) :
    sampleLt (sampleSqrt b) (sampleSqrt a) = false := by
  rcases a with _ | a
  · rcases b with _ | b
    · rfl
    · exact absurd hab (by simp [sampleLt])
  · rcases b with _ | b
    · rfl
    · have hle : a.toNat ≤ b.toNat := by
        simp only [sampleLt, decide_eq_false_iff_not, Int.not_lt] at hab
        omega
      have hsqrt := Nat.sqrt_le_sqrt hle
      simp only [sampleSqrt, Option.map_some, sampleLt, decide_eq_false_iff_not]
      omega

namespace ProductQuantization

/-- Of all codes that name centroids none has a smaller distance from a vector than its own codes:
if addition and square root keep the order of `f32`, and the codebooks have up to 256 centroids. -/
theorem encode_asymmetricDistance {sqrt : F → F} {more : List (List (List F) × Nat)}
    {others : List UInt8}
    (hadd : ∀ a b c d, fl.lt b a = false → fl.lt d c = false →
      fl.lt (fl.add b d) (fl.add a c) = false)
    (hsqrt : ∀ a b, fl.lt b a = false → fl.lt (sqrt b) (sqrt a) = false)
    (hne : vectors ≠ []) (hk : 1 ≤ k) (hsmall : k ≤ 256)
    (htrained : trained fl dim n ((vectors, k) :: more) = .ok pq) (hv : v.length = dim)
    (hlength : others.length = pq.numSubspaces) (hothers : ∀ code ∈ others, code.toNat < k) :
    ∃ codes near far, pq.encode fl v = .ok codes ∧ pq.asymmetricDistance fl sqrt v codes = .ok near ∧
      pq.asymmetricDistance fl sqrt v others = .ok far ∧ fl.lt far near = false := by
  have husable := usable_of_trained (List.cons_ne_nil _ _) htrained
  refine ⟨_, _, _, encode_eq husable hv, asymmetricDistance_eq husable hv (by simp),
    asymmetricDistance_eq husable hv (Nat.le_of_eq hlength.symm), hsqrt _ _ ?_⟩
  refine foldl_not_lt (fun m hm x y hxy => ?_) (fl.ranked.irrefl fl.zero)
  have hlt := List.mem_range.mp hm
  have hbook : (pq.codebook m).length = k := length_codebook_of_first hne htrained hlt
  have hother : (others.getD m 0).toNat < (pq.codebook m).length := by
    rw [hbook, List.getD_eq_getElem _ _ (hlength ▸ hlt)]
    exact hothers _ (List.getElem_mem _)
  have hne : pq.codebook m ≠ [] := List.ne_nil_of_length_pos (hbook ▸ hk)
  obtain ⟨c, hc, -, hnearest⟩ := code_nearest fl v hne (hbook ▸ hsmall)
  have hown : ((List.range pq.numSubspaces).map (pq.code fl v)).getD m 0 = pq.code fl v m := by
    rw [List.getD_eq_getElem _ _ (by simpa using hlt), List.getElem_map, List.getElem_range]
  rw [addPart, addPart, hown, hc, List.getElem?_eq_getElem hother]
  exact hadd _ _ _ _ hxy (hnearest _ (List.getElem_mem hother))

/-- Two subspaces with the centroids 0 and 4. -/
theorem encode_asymmetricDistance_two : ∃ codes near far,
    encode sampleFloats { numSubspaces := 2, subvectorDim := 1
                          codebooks := [[[some 0], [some 4]], [[some 0], [some 4]]] }
      [some 4, some 1] = .ok codes ∧
    asymmetricDistance sampleFloats sampleSqrt
      { numSubspaces := 2, subvectorDim := 1
        codebooks := [[[some 0], [some 4]], [[some 0], [some 4]]] } [some 4, some 1] codes = .ok near ∧
    asymmetricDistance sampleFloats sampleSqrt
      { numSubspaces := 2, subvectorDim := 1
        codebooks := [[[some 0], [some 4]], [[some 0], [some 4]]] } [some 4, some 1] [0, 1] = .ok far ∧
    sampleFloats.lt far near = false :=
  have htrained : trained sampleFloats 2 2 [([[some 0, some 0], [some 4, some 4]], 2)] =
      .ok { numSubspaces := 2, subvectorDim := 1
            codebooks := [[[some 0], [some 4]], [[some 0], [some 4]]] } := by
    decide +kernel
  have hothers : ∀ code ∈ ([0, 1] : List UInt8), code.toNat < 2 := by decide +kernel
  encode_asymmetricDistance sample_add_not_lt sample_sqrt_not_lt (by decide) (by decide) (by decide)
    htrained rfl rfl hothers

/-- However it was trained, a vector of its dimension decodes to nearest centroids exactly when the
low bytes serve all subspaces. -/
theorem trained_decodesToNearest_iff {sets : List (List (List F) × Nat)}
    (htrained : trained fl dim m sets = .ok pq) (hsets : sets ≠ []) (hv : v.length = dim) :
    pq.DecodesToNearest fl v ↔ ∀ m < pq.numSubspaces, pq.Served fl v m :=
  decodesToNearest_iff (usable_of_trained hsets htrained) hv

theorem trained_decodesToNearest_iff_two :
    ({ numSubspaces := 1, subvectorDim := 1, codebooks := [[[some 0], [some 4]]] } :
      ProductQuantization (Option Int)).DecodesToNearest sampleFloats [some 3] ↔
    ∀ m < 1, Served sampleFloats
      { numSubspaces := 1, subvectorDim := 1, codebooks := [[[some 0], [some 4]]] } [some 3] m :=
  have htrained : trained sampleFloats 1 1 [([[some 0], [some 4]], 2)] =
      .ok { numSubspaces := 1, subvectorDim := 1, codebooks := [[[some 0], [some 4]]] } := by
    decide +kernel
  trained_decodesToNearest_iff htrained (by decide) rfl

theorem not_decodesToNearest {pq : ProductQuantization (Option Int)} {v : List (Option Int)}
    {dim : Nat} (husable : Usable dim pq) (hv : v.length = dim) (hm : 0 < pq.numSubspaces)
    (hpart : pq.part sampleFloats v 0 ∉ pq.lastCodebook 0) :
    ¬pq.DecodesToNearest sampleFloats v := by
  intro hdecodes
  have hserved := (decodesToNearest_iff husable hv).mp hdecodes 0 hm
  exact hpart ((served_iff husable).mp hserved).1

/-- After a training on no vectors there is no centroid, and after a second training the first one's
centroids are still in use. -/
theorem trained_not_decodesToNearest :
    (∃ pq, trained sampleFloats 1 1 [([], 1)] = .ok pq ∧
        ¬pq.DecodesToNearest sampleFloats [some 1]) ∧
      ∃ pq, trained sampleFloats 1 1 [([[some 0]], 1), ([[some 5]], 1)] = .ok pq ∧
        ¬pq.DecodesToNearest sampleFloats [some 5] := by
  have hempty : trained sampleFloats 1 1 [([], 1)] =
      .ok { numSubspaces := 1, subvectorDim := 1, codebooks := [[]] } := rfl
  have htwice : trained sampleFloats 1 1 [([[some 0]], 1), ([[some 5]], 1)] =
      .ok { numSubspaces := 1, subvectorDim := 1, codebooks := [[[some 0]], [[some 5]]] } := by
    decide +kernel
  refine ⟨⟨_, hempty, ?_⟩, ⟨_, htwice, ?_⟩⟩
  · exact not_decodesToNearest (usable_of_trained (by decide) hempty) rfl (by decide) (by decide)
  · exact not_decodesToNearest (usable_of_trained (by decide) htwice) rfl (by decide) (by decide)

end ProductQuantization

/-! ## Signs -/

structure BinaryQuantization where
  dimension : Nat
  deriving DecidableEq, Repr

namespace BinaryQuantization

/-- `binary[i / 8] |= 1 << (i % 8)`. -/
def setBit (binary : List UInt8) (i : Nat) : Except Error (List UInt8) :=
  if i / 8 < binary.length then
    .ok (binary.modify (i / 8) fun byte => byte ||| 1 <<< UInt8.ofNat (i % 8))
  else .error .panic

def encode (fl : Floats F) (bq : BinaryQuantization) (vector : List F) : Except Error (List UInt8) :=
  vector.zipIdx.foldlM
    (fun binary val => if fl.lt fl.zero val.1 then setBit binary val.2 else .ok binary)
    (List.replicate ((bq.dimension + 7) / 8) 0)

def countOnes (byte : UInt8) : Nat := (List.range 8).countP fun t => byte.toNat.testBit t

/-- A sum of `u32`. -/
def hammingDistance (a b : List UInt8) : Nat :=
  (List.zipWith (fun x y => countOnes (x ^^^ y)) a b).sum % 2 ^ 32

variable {fl : Floats F} {bq : BinaryQuantization} {binary : List UInt8} {i j t : Nat}

/-- Whether a vector has a component greater than 0 at a place. -/
def positive (fl : Floats F) (vector : List F) (i : Nat) : Bool := vector[i]?.any (fl.lt fl.zero)

def bitAt (binary : List UInt8) (i : Nat) : Bool := (binary.getD (i / 8) 0).toNat.testBit (i % 8)

theorem testBit_or_shift (byte : UInt8) {s t : Nat} (hs : s < 8) (ht : t < 8) :
    (byte ||| 1 <<< UInt8.ofNat s).toNat.testBit t = (byte.toNat.testBit t || decide (s = t)) := by
  have hone : ∀ s < 8, ∀ t < 8, (1 <<< UInt8.ofNat s : UInt8).toNat.testBit t = decide (s = t) := by
    decide
  rw [UInt8.toNat_or, Nat.testBit_or, hone s hs t ht]

theorem bitAt_setBit (hi : i < 8 * binary.length) : ∃ binary', setBit binary i = .ok binary' ∧
    binary'.length = binary.length ∧
      ∀ j, bitAt binary' j = (bitAt binary j || decide (i = j)) := by
  have hin : i / 8 < binary.length := by omega
  refine ⟨_, if_pos hin, List.length_modify _ _ _, fun j => ?_⟩
  rw [bitAt, bitAt, List.getD_eq_getElem?_getD, List.getD_eq_getElem?_getD]
  by_cases hbyte : i / 8 = j / 8
  · rw [← hbyte, List.getElem?_modify_eq, List.getElem?_eq_getElem hin]
    change (binary[i / 8] ||| 1 <<< UInt8.ofNat (i % 8)).toNat.testBit (j % 8) = _
    rw [testBit_or_shift _ (Nat.mod_lt _ (by decide)) (Nat.mod_lt _ (by decide)), Option.getD_some]
    congr 1
    rw [decide_eq_decide]
    omega
  · rw [List.getElem?_modify_ne _ _ hbyte, decide_eq_false (fun heq : i = j => hbyte (heq ▸ rfl)),
      Bool.or_false]

variable (fl) in
/-- The bits of a code are the signs of the vector. -/
theorem encode_bits {vector : List F} (hvector : vector.length ≤ bq.dimension) :
    ∃ binary, bq.encode fl vector = .ok binary ∧ binary.length = (bq.dimension + 7) / 8 ∧
      ∀ i, bitAt binary i = positive fl vector i := by
  induction vector using List.reverseRecOn with
  | nil =>
    refine ⟨_, rfl, List.length_replicate, fun i => ?_⟩
    rw [bitAt, List.getD_eq_getElem?_getD, List.getElem?_replicate]
    split
    · exact Nat.zero_testBit _
    · exact Nat.zero_testBit _
  | append_singleton vector val ih =>
    rw [List.length_append, List.length_singleton] at hvector
    obtain ⟨binary, hencode, hlength, hbits⟩ := ih (Nat.le_of_succ_le hvector)
    rw [encode] at hencode ⊢
    rw [List.zipIdx_append, List.foldlM_append, hencode, ok_bind, Nat.zero_add, List.zipIdx_singleton,
      List.foldlM_cons]
    have hlast : ∀ i, positive fl (vector ++ [val]) i =
        (positive fl vector i || (decide (vector.length = i) && fl.lt fl.zero val)) := by
      intro i
      rw [positive, positive, List.getElem?_append]
      rcases Nat.lt_trichotomy i vector.length with hlt | heq | hgt
      · rw [if_pos hlt, decide_eq_false (Nat.ne_of_gt hlt), Bool.false_and, Bool.or_false]
      · rw [heq, if_neg (Nat.lt_irrefl _), Nat.sub_self, List.getElem?_eq_none (Nat.le_refl _)]
        simp
      · rw [if_neg (Nat.not_lt.mpr (Nat.le_of_lt hgt)), decide_eq_false (Nat.ne_of_lt hgt),
          List.getElem?_eq_none (l := vector) (Nat.le_of_lt hgt), List.getElem?_eq_none]
        · rfl
        · rw [List.length_singleton]
          omega
    by_cases hval : fl.lt fl.zero val = true
    · have hin : vector.length < 8 * binary.length := by omega
      obtain ⟨binary', hset, hlength', hbits'⟩ := bitAt_setBit hin
      refine ⟨binary', ?_, hlength'.trans hlength, fun i => ?_⟩
      · dsimp only
        rw [if_pos hval, hset]
        rfl
      · rw [hbits', hbits, hlast, hval, Bool.and_true]
    · refine ⟨binary, ?_, hlength, fun i => ?_⟩
      · dsimp only
        rw [if_neg hval]
        rfl
      · rw [hbits, hlast, Bool.eq_false_iff.mpr hval, Bool.and_false, Bool.or_false]

/-- Bytes by bytes, the bits that differ. -/
theorem sum_countOnes {a b : List UInt8} (hlength : a.length = b.length) :
    (List.zipWith (fun x y => countOnes (x ^^^ y)) a b).sum =
      (List.range (8 * a.length)).countP fun i => bitAt a i != bitAt b i := by
  induction a using List.reverseRecOn generalizing b with
  | nil => rfl
  | append_singleton a x ih =>
    obtain ⟨b, y, rfl⟩ : ∃ c y, b = c ++ [y] := by
      refine ⟨b.dropLast, b.getLast ?_, (List.dropLast_append_getLast _).symm⟩
      rintro rfl
      simp at hlength
    have hab : a.length = b.length := by simpa using hlength
    have hold : ∀ c : List UInt8, ∀ z, ∀ i < 8 * c.length, bitAt (c ++ [z]) i = bitAt c i := by
      intro c z i hi
      rw [bitAt, bitAt, List.getD_append _ _ _ _ (by omega)]
    have hnew : ∀ c : List UInt8, ∀ z, ∀ t < 8, bitAt (c ++ [z]) (8 * c.length + t) =
        z.toNat.testBit t := by
      intro c z t ht
      have hdiv : (8 * c.length + t) / 8 = c.length := by omega
      have hmod : (8 * c.length + t) % 8 = t := by omega
      rw [bitAt, hdiv, hmod, List.getD_append_right _ _ _ _ (Nat.le_refl _), Nat.sub_self]
      rfl
    rw [List.zipWith_append hab, List.sum_append, ih hab, List.length_append, List.length_singleton,
      Nat.mul_add, Nat.mul_one, List.range_add, List.countP_append, List.countP_map]
    congr 1
    · refine List.countP_congr fun i hi => ?_
      have hlt := List.mem_range.mp hi
      rw [hold a x i hlt, hold b y i (hab ▸ hlt)]
    · change countOnes (x ^^^ y) + 0 = _
      rw [Nat.add_zero, countOnes]
      refine List.countP_congr fun t ht => ?_
      have hlt := List.mem_range.mp ht
      rw [Function.comp_apply, hnew a x t hlt, hab, hnew b y t hlt, UInt8.toNat_xor, Nat.testBit_xor]

/-- The Hamming distance of two codes is the number of places at which exactly one of the vectors is
greater than 0. -/
theorem hammingDistance_encode {a b : List F} (ha : a.length = bq.dimension)
    (hb : b.length = bq.dimension) (hdimension : bq.dimension < 2 ^ 32) :
    ∃ x y, bq.encode fl a = .ok x ∧ bq.encode fl b = .ok y ∧
      hammingDistance x y =
        (List.range bq.dimension).countP fun i => positive fl a i != positive fl b i := by
  obtain ⟨x, hx, hxlength, hxbits⟩ := encode_bits fl (Nat.le_of_eq ha)
  obtain ⟨y, hy, hylength, hybits⟩ := encode_bits fl (Nat.le_of_eq hb)
  have hbeyond : ∀ v : List F, ∀ i, v.length ≤ i → positive fl v i = false := by
    intro v i hi
    rw [positive, List.getElem?_eq_none hi]
    rfl
  have hsum : (List.zipWith (fun x y => countOnes (x ^^^ y)) x y).sum =
      (List.range bq.dimension).countP fun i => positive fl a i != positive fl b i := by
    rw [sum_countOnes (hxlength.trans hylength.symm), hxlength]
    simp only [hxbits, hybits]
    -- Behind the dimension there are no signs.
    obtain ⟨rest, hrest⟩ := Nat.exists_eq_add_of_le
      (show bq.dimension ≤ 8 * ((bq.dimension + 7) / 8) by omega)
    rw [hrest, List.range_add, List.countP_append, List.countP_map]
    refine Nat.add_eq_left.mpr (List.countP_eq_zero.mpr fun i _ => ?_)
    rw [Function.comp_apply, hbeyond a _ (ha ▸ Nat.le_add_right _ _),
      hbeyond b _ (hb ▸ Nat.le_add_right _ _)]
    exact Bool.false_ne_true
  refine ⟨x, y, hx, hy, ?_⟩
  rw [hammingDistance, hsum, Nat.mod_eq_of_lt]
  refine Nat.lt_of_le_of_lt List.countP_le_length ?_
  rw [List.length_range]
  exact hdimension

def three : BinaryQuantization := { dimension := 3 }

/-- Of three components the first and the last have different signs. -/
theorem hammingDistance_encode_three : ∃ x y,
    encode sampleFloats three [some 1, some (-2), none] = .ok x ∧
      encode sampleFloats three [some (-1), some 0, some 2] = .ok y ∧
        hammingDistance x y = (List.range 3).countP fun i =>
          positive sampleFloats [some 1, some (-2), none] i !=
            positive sampleFloats [some (-1), some 0, some 2] i :=
  have hlength : [some 1, some (-2), none].length = three.dimension := rfl
  hammingDistance_encode hlength rfl (by decide)

end BinaryQuantization

end Quantization
end Index
end RTDB
