import RTDB.Lib.FixedWindows
import Std.Data.TreeMap.Lemmas

/-!
# The rate limiter of the REST API

A count and the start of a window stand for all calls of a client.  Durations and readings of the
clock are in nanoseconds.
-/

namespace RTDB
namespace Api

open FixedWindows

structure RateLimitConfig where
  maxRequests : UInt32 := 1000
  windowDuration : Nat := 60 * 10 ^ 9
  slidingWindow : Bool := true
  deriving DecidableEq, Repr

/-- For each client how many calls have been let through and when its window started. -/
abbrev Clients := Std.TreeMap String (UInt32 × Nat)

def isAllowed (config : RateLimitConfig) (clients : Clients) (clientIp : String) (now : Nat) :
    Clients × Bool :=
  match clients[clientIp]? with
  | some (count, windowStart) =>
    if config.windowDuration ≤ now - windowStart then (clients.insert clientIp (1, now), true)
    else if config.maxRequests ≤ count then (clients, false)
    else (clients.insert clientIp (count + 1, windowStart), true)
  | none => (clients.insert clientIp (1, now), true)

def remainingRequests (config : RateLimitConfig) (clients : Clients) (clientIp : String)
    (now : Nat) : UInt32 :=
  match clients[clientIp]? with
  | some (count, windowStart) =>
    if config.windowDuration ≤ now - windowStart then config.maxRequests
    else if config.maxRequests ≤ count then 0 else config.maxRequests - count
  | none => config.maxRequests

/-- A `Duration` has its seconds in 64 bits. -/
def RateLimitConfig.overflows (config : RateLimitConfig) : Bool :=
  2 ^ 64 * 10 ^ 9 ≤ config.windowDuration * 2

/-- Twice the duration is taken once for each entry, and the call panics where there is none. -/
def cleanupExpired (config : RateLimitConfig) (clients : Clients) (now : Nat) : Option Clients :=
  if config.overflows && !clients.isEmpty then none
  else some (clients.filter fun _ entry => now - entry.2 < config.windowDuration * 2)

inductive LimiterCall where
  | isAllowed (clientIp : String) (now : Nat)
  | cleanupExpired (now : Nat)
  deriving DecidableEq, Repr

def LimiterCall.now : LimiterCall → Nat
  | .isAllowed _ now => now
  | .cleanupExpired now => now

structure Answer where
  clientIp : String
  now : Nat
  allowed : Bool
  deriving DecidableEq, Repr

/-- A limiter with all the answers it has given, the oldest first.  A panic leaves the mutex of the
clients poisoned. -/
structure Limiter where
  clients : Option Clients := some ∅
  answers : List Answer := []

namespace Limiter

def step (config : RateLimitConfig) (s : Limiter) : LimiterCall → Limiter
  | .isAllowed clientIp now =>
    match s.clients with
    | some clients =>
      let called := isAllowed config clients clientIp now
      { clients := some called.1, answers := s.answers ++ [⟨clientIp, now, called.2⟩] }
    | none => s
  | .cleanupExpired now => { s with clients := s.clients.bind (cleanupExpired config · now) }

def run (config : RateLimitConfig) (calls : List LimiterCall) : Limiter :=
  calls.foldl (step config) {}

theorem run_concat (config : RateLimitConfig) (calls : List LimiterCall) (call : LimiterCall) :
    run config (calls ++ [call]) = (run config calls).step config call := by
  rw [run, List.foldl_append, ← run]
  rfl

end Limiter

/-! ## What a limit means -/

def Answer.of (clientIp : String) (r : Answer) : Bool := r.clientIp = clientIp

def Answer.admits (clientIp : String) (r : Answer) : Bool := r.of clientIp && r.allowed

/-- Nobody has more calls let through in less than the duration than there may be, and a call that is
turned away comes after as many within the duration. -/
structure Limits (config : RateLimitConfig) (answers : List Answer) : Prop where
  admitted : ∀ clientIp a b, a ≤ b → b - a < config.windowDuration →
    answers.countP (fun r => r.admits clientIp && (a ≤ r.now && r.now ≤ b)) ≤
      config.maxRequests.toNat
  rejected : ∀ earlier r later, answers = earlier ++ r :: later → r.allowed = false →
    config.maxRequests.toNat ≤
      earlier.countP fun s => s.admits r.clientIp && r.now < s.now + config.windowDuration

/-! ## The calls that get an answer -/

/-- The calls up to a cleanup that panics. -/
def answered (overflows : Bool) : Bool → List LimiterCall → List (String × Nat)
  | _, [] => []
  | _, .isAllowed clientIp now :: calls => (clientIp, now) :: answered overflows true calls
  | known, .cleanupExpired _ :: calls =>
    if overflows && known then [] else answered overflows known calls

def timesOf (clientIp : String) (calls : List (String × Nat)) : List Nat :=
  (calls.filter (·.1 = clientIp)).map (·.2)

section Runs

variable {config : RateLimitConfig} {clients clients' : Clients} {clientIp other : String}
  {now last : Nat} {ws : List Window}

theorem remainingRequests_of_not_allowed (hcall : (isAllowed config clients clientIp now).2 = false) :
    remainingRequests config clients clientIp now = 0 := by
  rw [isAllowed] at hcall
  rw [remainingRequests]
  split at hcall
  · split at hcall
    · exact absurd hcall (by simp)
    · rename_i hcovered
      split at hcall
      · rename_i hfull
        rw [if_neg hcovered, if_pos hfull]
      · exact absurd hcall (by simp)
  · exact absurd hcall (by simp)

/-! ## The entry of a client and its newest window -/

/-- An entry is about the newest window, and there is none only where that window is over. -/
def Entry (config : RateLimitConfig) (last : Nat) : Option (UInt32 × Nat) → List Window → Prop
  | some (count, windowStart), w :: _ =>
    windowStart = w.start ∧ count.toNat = (w.admitted config.maxRequests.toNat).length
  | some _, [] => False
  | none, w :: _ => config.windowDuration ≤ last - w.start
  | none, [] => True

theorem Entry.later {entry : Option (UInt32 × Nat)} (hentry : Entry config last entry ws)
    (hlast : last ≤ now) : Entry config now entry ws := by
  cases entry with
  | some entry =>
    cases ws with
    | nil => exact hentry
    | cons w older => exact hentry
  | none =>
    cases ws with
    | nil => exact hentry
    | cons w older =>
      have hover : config.windowDuration ≤ last - w.start := hentry
      show config.windowDuration ≤ now - w.start
      omega

theorem entry_new (older : List Window) :
    Entry config now (some (1, now)) ({ start := now, others := [] } :: older) := by
  refine ⟨rfl, ?_⟩
  rw [Window.length_admitted]
  show 1 = min _ 1
  omega

theorem getElem?_isAllowed_of_ne (hne : other ≠ clientIp) :
    (isAllowed config clients clientIp now).1[other]? = clients[other]? := by
  have hinsert : ∀ entry, (clients.insert clientIp entry)[other]? = clients[other]? := by
    intro entry
    rw [Std.TreeMap.getElem?_insert, if_neg]
    exact fun heq => hne (Std.LawfulEqCmp.eq_of_compare heq).symm
  rw [isAllowed]
  split
  · split
    · exact hinsert _
    · split
      · rfl
      · exact hinsert _
  · exact hinsert _

/-- The limiter decides as a counter that starts anew with each window. -/
theorem isAllowed_spec (hentry : Entry config last clients[clientIp]? ws) (hlast : last ≤ now) :
    (isAllowed config clients clientIp now).2 =
        takes config.maxRequests.toNat config.windowDuration ws now ∧
      Entry config now (isAllowed config clients clientIp now).1[clientIp]?
        (place config.windowDuration ws now) := by
  rw [isAllowed]
  split
  · rename_i count windowStart hsome
    rw [hsome] at hentry
    cases ws with
    | nil => exact hentry.elim
    | cons w older =>
      obtain ⟨rfl, hcount⟩ := hentry
      rw [takes, place]
      split
      · rename_i hover
        refine ⟨by rw [decide_eq_true hover, Bool.true_or], ?_⟩
        rw [Std.TreeMap.getElem?_insert_self]
        exact entry_new _
      · rename_i hcovered
        have hroom : config.maxRequests ≤ count ↔
            ¬(w.admitted config.maxRequests.toNat).length < config.maxRequests.toNat := by
          rw [UInt32.le_iff_toNat_le, hcount, Nat.not_lt]
        split
        · rename_i hfull
          refine ⟨?_, ?_⟩
          · rw [decide_eq_false hcovered, decide_eq_false (hroom.mp hfull), Bool.false_or]
          · rw [hsome]
            refine ⟨rfl, ?_⟩
            rw [Window.admitted_concat, if_neg (hroom.mp hfull), List.append_nil]
            exact hcount
        · rename_i hfull
          have hless := Decidable.not_not.mp (mt hroom.mpr hfull)
          refine ⟨?_, ?_⟩
          · rw [decide_eq_false hcovered, decide_eq_true hless, Bool.false_or]
          · rw [Std.TreeMap.getElem?_insert_self]
            refine ⟨rfl, ?_⟩
            have hone : (1 : UInt32).toNat = 1 := rfl
            have hmax := config.maxRequests.toNat_lt
            rw [Window.admitted_concat, if_pos hless, List.length_append, List.length_singleton,
              UInt32.toNat_add, hone, hcount, Nat.mod_eq_of_lt]
            omega
  · rename_i hnone
    rw [hnone] at hentry
    rw [Std.TreeMap.getElem?_insert_self]
    cases ws with
    | nil => exact ⟨rfl, entry_new []⟩
    | cons w older =>
      have hover : config.windowDuration ≤ last - w.start := hentry
      have hover' : config.windowDuration ≤ now - w.start := by omega
      rw [takes, place, decide_eq_true hover', if_pos hover', Bool.true_or]
      exact ⟨rfl, entry_new _⟩

/-- A cleanup forgets clients whose window is over. -/
theorem entry_cleanupExpired (hentry : Entry config last clients[clientIp]? ws) (hlast : last ≤ now)
    (hcleanup : cleanupExpired config clients now = some clients') :
    Entry config now clients'[clientIp]? ws := by
  rw [cleanupExpired] at hcleanup
  split at hcleanup
  · exact absurd hcleanup (by simp)
  · rw [← Option.some.inj hcleanup, Std.TreeMap.getElem?_filter']
    cases hlookup : clients[clientIp]? with
    | none =>
      rw [hlookup] at hentry
      exact hentry.later hlast
    | some entry =>
      rw [hlookup] at hentry
      rw [Option.filter_some]
      split
      · exact hentry.later hlast
      · rename_i hover
        cases ws with
        | nil => exact hentry.elim
        | cons w older =>
          have hstart : entry.2 = w.start := hentry.1
          simp only [decide_eq_true_eq] at hover
          show config.windowDuration ≤ now - w.start
          omega

/-! ## Runs -/

def Answer.call (r : Answer) : String × Nat := (r.clientIp, r.now)

namespace Limiter

def windowsOf (config : RateLimitConfig) (s : Limiter) (clientIp : String) : List Window :=
  windows config.windowDuration (timesOf clientIp (s.answers.map Answer.call))

def admittedWithin (config : RateLimitConfig) (s : Limiter) (clientIp : String) (a : Nat) : Nat :=
  s.answers.countP fun r => r.admits clientIp && within config.windowDuration a r.now

structure Sound (config : RateLimitConfig) (last : Nat) (s : Limiter) : Prop where
  placed : ∀ clientIp, Placed config.windowDuration last (s.windowsOf config clientIp)
  entry : ∀ clients, s.clients = some clients →
    ∀ clientIp, Entry config last clients[clientIp]? (s.windowsOf config clientIp)
  load : ∀ clientIp a, s.admittedWithin config clientIp a =
    load config.maxRequests.toNat config.windowDuration a (s.windowsOf config clientIp)
  rejected : ∀ earlier r later, s.answers = earlier ++ r :: later → r.allowed = false →
    config.maxRequests.toNat ≤
      earlier.countP fun s => s.admits r.clientIp && r.now < s.now + config.windowDuration

variable {s : Limiter} {call : LimiterCall}

theorem sound_new : Sound config 0 ({} : Limiter) := by
  refine ⟨fun clientIp => placed_nil _ _, ?_, fun clientIp a => rfl, ?_⟩
  · intro clients hclients clientIp
    rw [← Option.some.inj hclients, Std.TreeMap.getElem?_emptyc]
    trivial
  · intro earlier r later hanswers
    exact absurd hanswers (by simp)

theorem windowsOf_concat (clients : Option Clients) (allowed : Bool) :
    windowsOf config ⟨clients, s.answers ++ [⟨clientIp, now, allowed⟩]⟩ other =
      if other = clientIp then place config.windowDuration (s.windowsOf config clientIp) now
      else s.windowsOf config other := by
  rw [windowsOf, List.map_append, timesOf, List.filter_append, List.map_append]
  split
  · rename_i heq
    subst heq
    rw [windowsOf, ← windows_concat]
    simp [timesOf, Answer.call]
  · rename_i hne
    rw [windowsOf, timesOf]
    simp [Answer.call, Ne.symm hne]

theorem admittedWithin_concat (clients : Option Clients) (allowed : Bool) (a : Nat) :
    admittedWithin config ⟨clients, s.answers ++ [⟨clientIp, now, allowed⟩]⟩ other a =
      s.admittedWithin config other a +
        if other = clientIp ∧ allowed ∧ within config.windowDuration a now then 1 else 0 := by
  rw [admittedWithin, List.countP_append, ← admittedWithin, List.countP_singleton]
  congr 2
  simp only [Answer.admits, Answer.of, Bool.and_eq_true, decide_eq_true_eq, and_assoc, eq_iff_iff]
  exact and_congr_left' eq_comm

theorem Sound.isAllowed (hs : Sound config last s) (hlast : last ≤ now) (clientIp : String) :
    Sound config now (s.step config (.isAllowed clientIp now)) := by
  rw [step]
  split
  · rename_i clients hclients
    have hentry := hs.entry clients hclients
    obtain ⟨hdecides, hnew⟩ := isAllowed_spec (hentry clientIp) hlast
    refine ⟨?_, ?_, ?_, ?_⟩
    · intro other
      rw [windowsOf_concat]
      split
      · exact (hs.placed clientIp).place hlast
      · exact (hs.placed other).later hlast
    · intro clients' hclients' other
      rw [← Option.some.inj hclients', windowsOf_concat]
      split
      · rename_i heq
        rw [heq]
        exact hnew
      · rename_i hne
        rw [getElem?_isAllowed_of_ne hne]
        exact (hentry other).later hlast
    · intro other a
      rw [admittedWithin_concat, windowsOf_concat, hs.load, hdecides]
      by_cases heq : other = clientIp
      · rw [if_pos heq, load_place, heq]
        simp only [true_and, Bool.and_eq_true]
      · rw [if_neg heq, if_neg fun h => heq h.1, Nat.add_zero]
    · intro earlier r later hanswers hturned
      rcases List.eq_nil_or_concat later with rfl | ⟨front, r', rfl⟩
      · obtain ⟨rfl, hr⟩ := List.append_inj' hanswers rfl
        obtain rfl := (List.cons.inj hr).1
        -- The call at hand is turned away by the window it falls into.
        obtain ⟨a, ha, hfull⟩ := exists_load_of_not_takes (hs.placed clientIp)
          (hdecides.symm.trans hturned)
        rw [← hs.load, admittedWithin] at hfull
        refine hfull.trans (List.countP_mono_left fun r' _ hr' => ?_)
        simp only [within, Bool.and_eq_true, decide_eq_true_eq] at hr' ⊢
        exact ⟨hr'.1, by omega⟩
      · rw [List.concat_eq_append, ← List.cons_append, ← List.append_assoc] at hanswers
        exact hs.rejected earlier r front (List.append_inj' hanswers rfl).1 hturned
  · rename_i hclients
    refine ⟨fun other => (hs.placed other).later hlast, ?_, hs.load, hs.rejected⟩
    intro clients hsome
    rw [hclients] at hsome
    exact absurd hsome (by simp)

theorem Sound.cleanupExpired (hs : Sound config last s) (hlast : last ≤ now) :
    Sound config now (s.step config (.cleanupExpired now)) := by
  refine ⟨fun other => (hs.placed other).later hlast, ?_, hs.load, hs.rejected⟩
  intro clients' hclients' other
  obtain ⟨clients, hclients, hcleanup⟩ := Option.bind_eq_some_iff.mp hclients'
  exact entry_cleanupExpired (hs.entry clients hclients other) hlast hcleanup

theorem Sound.step (hs : Sound config last s) (hlast : last ≤ call.now) :
    Sound config call.now (s.step config call) := by
  cases call with
  | isAllowed clientIp now => exact hs.isAllowed hlast clientIp
  | cleanupExpired now => exact hs.cleanupExpired hlast

/-- Before the calls that come at some time or later. -/
theorem sound_run {calls : List LimiterCall} (htimes : calls.Pairwise fun c d => c.now ≤ d.now) :
    ∃ last, Sound config last (run config calls) ∧
      ∀ next, (∀ call ∈ calls, call.now ≤ next) → last ≤ next := by
  induction calls using List.reverseRecOn with
  | nil => exact ⟨0, sound_new, fun next _ => Nat.zero_le next⟩
  | append_singleton calls call ih =>
    obtain ⟨hearlier, -, hbefore⟩ := List.pairwise_append.mp htimes
    obtain ⟨last, hs, hlast⟩ := ih hearlier
    have hcall : last ≤ call.now := hlast _ fun c hc => hbefore c hc call (List.mem_singleton_self _)
    refine ⟨call.now, ?_, fun next hnext => hnext call ?_⟩
    · rw [run_concat]
      exact hs.step hcall
    · exact List.mem_append_right _ (List.mem_singleton_self _)

theorem foldl_poisoned (calls : List LimiterCall) (hs : s.clients = none) :
    calls.foldl (step config) s = s := by
  induction calls with
  | nil => rfl
  | cons call calls ih =>
    have hstays : s.step config call = s := by
      cases call with
      | isAllowed clientIp now => rw [step, hs]
      | cleanupExpired now => rw [step, hs, Option.bind_none, ← hs]
    rw [List.foldl_cons, hstays, ih]

theorem isEmpty_isAllowed : (Api.isAllowed config clients clientIp now).1.isEmpty = false := by
  rw [Api.isAllowed]
  split
  · rename_i count windowStart hsome
    split
    · exact Std.TreeMap.isEmpty_insert
    · split
      · refine Bool.eq_false_iff.mpr fun hempty => ?_
        rw [Std.TreeMap.getElem?_of_isEmpty hempty] at hsome
        exact absurd hsome (by simp)
      · exact Std.TreeMap.isEmpty_insert
  · exact Std.TreeMap.isEmpty_insert

/-- Whether a client is known matters where a cleanup may panic. -/
theorem answers_foldl {known : Bool} (calls : List LimiterCall) (hclients : s.clients = some clients)
    (hknown : config.overflows = true → clients.isEmpty = !known) :
    (calls.foldl (step config) s).answers.map Answer.call =
      s.answers.map Answer.call ++ answered config.overflows known calls := by
  induction calls generalizing s clients known with
  | nil => exact (List.append_nil _).symm
  | cons call calls ih =>
    rw [List.foldl_cons]
    cases call with
    | isAllowed clientIp now =>
      have hstep : s.step config (.isAllowed clientIp now) =
          ⟨some (Api.isAllowed config clients clientIp now).1,
            s.answers ++ [⟨clientIp, now, (Api.isAllowed config clients clientIp now).2⟩]⟩ := by
        rw [step, hclients]
      have hknown' : config.overflows = true →
          (Api.isAllowed config clients clientIp now).1.isEmpty = !true :=
        fun _ => isEmpty_isAllowed
      rw [hstep, ih rfl hknown', List.map_append, List.append_assoc]
      rfl
    | cleanupExpired now =>
      have hstep : s.step config (.cleanupExpired now) =
          { s with clients := cleanupExpired config clients now } := by
        rw [step, hclients, Option.bind_some]
      rw [hstep, answered, cleanupExpired]
      by_cases hoverflows : config.overflows = true
      · have hempty := hknown hoverflows
        rw [hempty, Bool.not_not]
        split
        · rw [foldl_poisoned calls rfl, List.append_nil]
        · rename_i hnone
          rw [hoverflows, Bool.true_and] at hnone
          rw [Bool.eq_false_iff.mpr hnone] at hempty ⊢
          refine ih rfl fun _ => Std.TreeMap.isEmpty_filter_iff.mpr fun k hk => ?_
          exact absurd hk (Std.TreeMap.isEmpty_iff_forall_not_mem.mp hempty k)
      · rw [Bool.eq_false_iff.mpr hoverflows, Bool.false_and, Bool.false_and,
          if_neg Bool.false_ne_true, if_neg Bool.false_ne_true, ← Bool.eq_false_iff.mpr hoverflows]
        exact ih rfl fun htrue => absurd htrue hoverflows

theorem answers_run (calls : List LimiterCall) :
    (run config calls).answers.map Answer.call = answered config.overflows false calls :=
  answers_foldl calls rfl fun _ => rfl

end Limiter

end Runs

/-- The windows of a client come far enough from one another, and there may be calls at all. -/
def Fits (config : RateLimitConfig) (times : List Nat) : Prop :=
  config.windowDuration = 0 ∨ times = [] ∨ 0 < config.maxRequests.toNat ∧
    Spaced config.maxRequests.toNat config.windowDuration (windows config.windowDuration times)

/-- The limit holds in a run just where it holds from each window of a client to the next. -/
theorem limits_iff (config : RateLimitConfig) (calls : List LimiterCall)
    (htimes : calls.Pairwise fun c d => c.now ≤ d.now) :
    Limits config (Limiter.run config calls).answers ↔
      ∀ clientIp, Fits config (timesOf clientIp (answered config.overflows false calls)) := by
  obtain ⟨last, hs, -⟩ : ∃ last, Limiter.Sound config last (Limiter.run config calls) ∧ _ :=
    Limiter.sound_run htimes
  have hwindows : ∀ clientIp, (Limiter.run config calls).windowsOf config clientIp =
      windows config.windowDuration (timesOf clientIp (answered config.overflows false calls)) :=
    fun clientIp => by rw [Limiter.windowsOf, Limiter.answers_run]
  refine ⟨fun hlimits clientIp => ?_, fun hfits => ⟨fun clientIp a b hab hshort => ?_, hs.rejected⟩⟩
  · by_cases hduration : config.windowDuration = 0
    · exact .inl hduration
    · have hpos := Nat.pos_of_ne_zero hduration
      have hload : ∀ a, load config.maxRequests.toNat config.windowDuration a
          ((Limiter.run config calls).windowsOf config clientIp) ≤ config.maxRequests.toNat := by
        intro a
        rw [← hs.load]
        refine le_trans (List.countP_mono_left fun r _ hr => ?_)
          (hlimits.admitted clientIp a (a + (config.windowDuration - 1)) (by omega) (by omega))
        simp only [within, Bool.and_eq_true, decide_eq_true_eq] at hr ⊢
        exact ⟨hr.1, hr.2.1, by omega⟩
      rw [hwindows] at hload
      by_cases hnone : timesOf clientIp (answered config.overflows false calls) = []
      · exact .inr (.inl hnone)
      · refine .inr (.inr ⟨pos_of_load_le hpos (mt windows_eq_nil_iff.mp hnone) hload, ?_⟩)
        exact spaced_of_load_le hload
  · have hpos : 0 < config.windowDuration := by omega
    have hload : load config.maxRequests.toNat config.windowDuration a
        ((Limiter.run config calls).windowsOf config clientIp) ≤ config.maxRequests.toNat := by
      rcases hfits clientIp with hzero | hnone | ⟨hmax, hspaced⟩
      · omega
      · rw [hwindows, windows_eq_nil_iff.mpr hnone]
        exact Nat.zero_le _
      · rw [← hwindows] at hspaced
        exact load_le_of_spaced hpos hmax (hs.placed clientIp) hspaced
    rw [← hs.load] at hload
    refine le_trans (List.countP_mono_left fun r _ hr => ?_) hload
    simp only [within, Bool.and_eq_true, decide_eq_true_eq] at hr ⊢
    exact ⟨hr.1, hr.2.1, by omega⟩

def burst : List LimiterCall :=
  [.isAllowed "a" 0, .isAllowed "a" 9, .isAllowed "a" 10, .isAllowed "a" 11]

theorem limits_iff_burst : burst.Pairwise (fun c d => c.now ≤ d.now) ∧
    (Limits { maxRequests := 2, windowDuration := 10 }
        (Limiter.run { maxRequests := 2, windowDuration := 10 } burst).answers ↔
      ∀ clientIp, Fits { maxRequests := 2, windowDuration := 10 }
        (timesOf clientIp (answered false false burst))) :=
  ⟨by decide, limits_iff { maxRequests := 2, windowDuration := 10 } burst (by decide)⟩

theorem not_limits_burst : ¬∀ (config : RateLimitConfig) (calls : List LimiterCall),
    config.slidingWindow = true → calls.Pairwise (fun c d => c.now ≤ d.now) →
      Limits config (Limiter.run config calls).answers := by
  intro hlimits
  have hburst := (hlimits { maxRequests := 2, windowDuration := 10 } burst rfl (by decide)).admitted
    "a" 9 11 (by decide) (by decide)
  exact absurd hburst (by decide)

end Api
end RTDB
