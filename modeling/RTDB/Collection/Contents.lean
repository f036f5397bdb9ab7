import RTDB.Collection.AllOrNothing
import RTDB.Storage.LoggedRecords

/-!
# What collections hold

Two collections hold the same when no later call tells them apart by more than the number it is
given.  An upsert leaves what its items would leave by themselves, as long as no error ends it.
-/

namespace RTDB

open Storage

variable {P D : Type}

def UpsertItem.record (item : UpsertItem P) : Record P :=
  .put item.id item.vector item.timestamp

namespace Collection

/-- The collections hold the same; the numbers that their calls are given are not compared. -/
def SameContents (c c' : Collection P D) : Prop :=
  c.config = c'.config ∧ c.storage = c'.storage ∧ c.index = c'.index ∧ c.nextId = c'.nextId

theorem SameContents.refl (c : Collection P D) : SameContents c c := ⟨rfl, rfl, rfl, rfl⟩

theorem SameContents.symm {c c' : Collection P D} (hsame : SameContents c c') :
    SameContents c' c :=
  ⟨hsame.1.symm, hsame.2.1.symm, hsame.2.2.1.symm, hsame.2.2.2.symm⟩

theorem SameContents.trans {c c' c'' : Collection P D} (hfirst : SameContents c c')
    (hnext : SameContents c' c'') : SameContents c c'' :=
  ⟨hfirst.1.trans hnext.1, hfirst.2.1.trans hnext.2.1, hfirst.2.2.1.trans hnext.2.2.1,
    hfirst.2.2.2.trans hnext.2.2.2⟩

theorem sameContents_rel_refl (c : Option (Collection P D)) : Option.Rel SameContents c c := by
  cases c with
  | none => exact .none
  | some c => exact .some (.refl c)

/-! ## A loop that goes on after an error -/

section Loops

variable [LinearOrder D] {codec : Codec P} {crc32c : List UInt8 → UInt32}
  {c c' : Collection P D} {item : UpsertItem P}
  {items : List (UpsertItem P)}

variable (codec crc32c) in
def eachAlone (c : Collection P D) :
    List (UpsertItem P) → Collection P D × List (Except Error Unit)
  | [] => (c, [])
  | item :: items =>
    let (c, result) := c.upsertItem codec crc32c item
    let (c, results) := eachAlone c items
    (c, result :: results)

theorem eachAlone_cons (c : Collection P D) (item : UpsertItem P)
    (items : List (UpsertItem P)) :
    eachAlone codec crc32c c (item :: items) =
      ((eachAlone codec crc32c (c.upsertItem codec crc32c item).1 items).1,
        (c.upsertItem codec crc32c item).2 ::
          (eachAlone codec crc32c (c.upsertItem codec crc32c item).1 items).2) :=
  rfl

variable (codec crc32c) in
/-- An item does the same to the same contents. -/
theorem SameContents.upsertItem (hsame : SameContents c c') (item : UpsertItem P) :
    SameContents (c.upsertItem codec crc32c item).1 (c'.upsertItem codec crc32c item).1 ∧
      (c.upsertItem codec crc32c item).2 = (c'.upsertItem codec crc32c item).2 := by
  obtain ⟨hconfig, hstorage, hindex, hnextId⟩ := hsame
  rw [Collection.upsertItem, Collection.upsertItem, hconfig, hstorage, hindex, hnextId]
  split
  · exact ⟨⟨hconfig, hstorage, hindex, hnextId⟩, rfl⟩
  · split
    · exact ⟨⟨rfl, rfl, rfl, rfl⟩, rfl⟩
    · exact ⟨⟨rfl, rfl, rfl, rfl⟩, rfl⟩

/-- An upsert of one item is its round. -/
theorem sameContents_upsert (c : Collection P D) (items : List (UpsertItem P)) :
    SameContents (c.upsert codec crc32c items).1
      (loop (upsertItem codec crc32c) c items).1 := by
  rw [upsert]
  rcases loop (upsertItem codec crc32c) c items with ⟨c', e | _⟩
  · exact ⟨rfl, rfl, rfl, rfl⟩
  · exact ⟨rfl, rfl, rfl, rfl⟩

theorem eachAlone_of_loop_ok
    (hok : (loop (upsertItem codec crc32c) c items).2 = .ok ()) :
    eachAlone codec crc32c c items =
      ((loop (upsertItem codec crc32c) c items).1,
        items.map fun _ => .ok ()) := by
  induction items generalizing c with
  | nil => rfl
  | cons item items ih =>
    rw [loop] at hok ⊢
    rw [eachAlone_cons]
    rcases hround : c.upsertItem codec crc32c item with ⟨c', e | _⟩
    · rw [hround] at hok
      exact absurd hok (by simp)
    · rw [hround] at hok
      rw [ih hok]
      rfl

theorem eachAlone_of_turnedAway {e : Error}
    (haway : ∀ item ∈ items, c.turnedAwayWith codec item = some e) :
    eachAlone codec crc32c c items = (c, items.map fun _ => .error e) := by
  induction items with
  | nil => rfl
  | cons item items ih =>
    obtain ⟨hfirst, hrest⟩ := List.forall_mem_cons.mp haway
    rw [eachAlone_cons, upsertItem_of_turnedAwayWith codec crc32c hfirst, ih hrest]
    rfl

variable (codec crc32c) in
theorem eachAlone_wal (c : Collection P D) (items : List (UpsertItem P)) :
    (eachAlone codec crc32c c items).1.storage.engine.wal = c.storage.engine.wal ∨
      c.storage.engine.wal.Later (eachAlone codec crc32c c items).1.storage.engine.wal := by
  induction items generalizing c with
  | nil => exact .inl rfl
  | cons item items ih =>
    have hrest := ih (c.upsertItem codec crc32c item).1
    rw [eachAlone_cons]
    by_cases haway : c.TurnsAway codec item
    · obtain ⟨e, hround⟩ := upsertItem_of_turnsAway codec crc32c haway
      rw [hround] at hrest ⊢
      exact hrest
    · have hlater := upsertItem_later codec crc32c haway
      rcases hrest with hsame | hmore
      · rw [hsame]
        exact .inr hlater
      · exact .inr (hlater.trans hmore)

theorem turnedAway_of_eachAlone {e : Error}
    (hresults : (eachAlone codec crc32c c items).2 = items.map fun _ => .error e)
    (hwal : (eachAlone codec crc32c c items).1.storage.engine.wal = c.storage.engine.wal) :
    ∀ item ∈ items, c.turnedAwayWith codec item = some e := by
  induction items with
  | nil => exact fun item hitem => absurd hitem List.not_mem_nil
  | cons item items ih =>
    rw [eachAlone_cons] at hresults
    obtain ⟨hfirst, hrest⟩ := List.cons.inj hresults
    cases haway : c.turnedAwayWith codec item with
    | some e' =>
      have hround := upsertItem_of_turnedAwayWith codec crc32c haway
      rw [eachAlone_cons, hround] at hwal
      rw [hround] at hfirst hrest
      refine List.forall_mem_cons.mpr ⟨?_, ih hrest hwal⟩
      rw [haway, Except.error.inj hfirst]
    | none =>
      have hlater := upsertItem_later codec crc32c
        (turnedAwayWith_eq_none_iff codec |>.mp haway)
      have hmore := eachAlone_wal codec crc32c
        (c.upsertItem codec crc32c item).1 items
      have hfinal : c.storage.engine.wal.Later
          (eachAlone codec crc32c c (item :: items)).1.storage.engine.wal := by
        rcases hmore with hsame | hmore
        · exact hsame ▸ hlater
        · exact hlater.trans hmore
      exact absurd hwal hfinal.ne

variable (codec crc32c) in
/-- A loop that an error leaves, with its result for all, does as the loop that goes on, where it
has no error, where it has no more than one item, or where it turns all of them away alike. -/
theorem loop_eachAlone_iff (c : Collection P D) (items : List (UpsertItem P)) :
    SameContents (loop (upsertItem codec crc32c) c items).1
          (eachAlone codec crc32c c items).1 ∧
        (items.map fun _ => (loop (upsertItem codec crc32c) c items).2) =
          (eachAlone codec crc32c c items).2 ↔
      items.length ≤ 1 ∨
        (∀ r ∈ rounds (upsertItem codec crc32c) c items, r.1.Takes codec r.2) ∨
        ∃ e, ∀ item ∈ items, c.turnedAwayWith codec item = some e := by
  constructor
  · rintro ⟨hsame, hresults⟩
    cases items with
    | nil => exact .inl (Nat.zero_le 1)
    | cons item items =>
      rw [eachAlone_cons] at hsame hresults
      obtain ⟨hfirst, hrest⟩ := List.cons.inj hresults
      cases hloop : (loop (upsertItem codec crc32c) c (item :: items)).2 with
      | ok u => exact .inr (.inl (takes_of_upsert_ok codec crc32c hloop))
      | error e =>
        rw [hloop] at hfirst hrest
        have hround : c.upsertItem codec crc32c item =
            ((c.upsertItem codec crc32c item).1, .error e) := Prod.ext rfl hfirst.symm
        have hleft : (loop (upsertItem codec crc32c) c (item :: items)).1 =
            (c.upsertItem codec crc32c item).1 := by
          rw [loop, hround]
        rw [hleft] at hsame
        have haway := turnedAway_of_eachAlone hrest.symm
          (congrArg (fun s => s.engine.wal) hsame.2.1).symm
        cases hitem : c.turnedAwayWith codec item with
        | some e' =>
          have hfirst' := upsertItem_of_turnedAwayWith codec crc32c hitem
          rw [hround] at hfirst'
          obtain ⟨hstays, herror⟩ := Prod.mk.inj hfirst'
          rw [hstays] at haway
          refine .inr (.inr ⟨e, List.forall_mem_cons.mpr ⟨?_, haway⟩⟩)
          rw [hitem, Except.error.inj herror]
        | none =>
          -- Nothing but the tombstone of the first item gives its error.
          have htombstone := upsertItem_of_tombstone codec crc32c hitem fun htaken => by
            rw [← upsertItem_ok_iff codec crc32c, hround] at htaken
            exact absurd htaken (by simp)
          rw [hround] at htombstone
          cases items with
          | nil => exact .inl le_rfl
          | cons other items =>
            have hother := haway other List.mem_cons_self
            rw [Except.error.inj htombstone] at hother
            exact absurd hother (turnedAwayWith_ne_tombstoneError _ other)
  · rintro (hshort | htakes | ⟨e, haway⟩)
    · cases items with
      | nil => exact ⟨⟨rfl, rfl, rfl, rfl⟩, rfl⟩
      | cons item items =>
        obtain rfl : items = [] := List.eq_nil_of_length_eq_zero (by
          rw [List.length_cons] at hshort
          omega)
        rw [eachAlone_cons, loop]
        rcases c.upsertItem codec crc32c item with ⟨c', e | _⟩
        · exact ⟨⟨rfl, rfl, rfl, rfl⟩, rfl⟩
        · exact ⟨⟨rfl, rfl, rfl, rfl⟩, rfl⟩
    · obtain ⟨info, hok⟩ := upsert_ok_of_takes codec crc32c htakes
      have hloop : (loop (upsertItem codec crc32c) c items).2 = .ok () := by
        rw [upsert] at hok
        rcases houtcome : loop (upsertItem codec crc32c) c items with
          ⟨c', e | _⟩
        · rw [houtcome] at hok
          exact absurd hok (by simp [complete])
        · rfl
      rw [eachAlone_of_loop_ok hloop, hloop]
      exact ⟨⟨rfl, rfl, rfl, rfl⟩, rfl⟩
    · rw [eachAlone_of_turnedAway haway]
      cases items with
      | nil => exact ⟨⟨rfl, rfl, rfl, rfl⟩, rfl⟩
      | cons item items =>
        have hround := upsertItem_of_turnedAwayWith codec crc32c
          (haway item List.mem_cons_self)
        rw [loop, hround]
        exact ⟨⟨rfl, rfl, rfl, rfl⟩, rfl⟩

end Loops

/-! ## A loop part by part -/

theorem loop_append {σ α : Type} {round : σ → α → σ × Except Error Unit} {s : σ} {items : List α}
    (hok : (loop round s items).2 = .ok ()) (rest : List α) :
    loop round s (items ++ rest) = loop round (loop round s items).1 rest := by
  induction items generalizing s with
  | nil => rfl
  | cons item items ih =>
    rw [loop] at hok
    rw [List.cons_append, loop, loop]
    rcases hround : round s item with ⟨s', e | _⟩
    · rw [hround] at hok
      exact absurd hok (by simp)
    · rw [hround] at hok
      exact ih hok

section Parts

variable [LinearOrder D] {codec : Codec P} {crc32c : List UInt8 → UInt32} {c c' : Collection P D}
  {items : List (UpsertItem P)}

variable (codec crc32c) in
theorem SameContents.loop (hsame : SameContents c c') (items : List (UpsertItem P)) :
    SameContents (Collection.loop (Collection.upsertItem codec crc32c) c items).1
        (Collection.loop (Collection.upsertItem codec crc32c) c' items).1 ∧
      (Collection.loop (Collection.upsertItem codec crc32c) c items).2 =
        (Collection.loop (Collection.upsertItem codec crc32c) c' items).2 := by
  induction items generalizing c c' with
  | nil => exact ⟨hsame, rfl⟩
  | cons item items ih =>
    obtain ⟨hcontents, hresult⟩ := hsame.upsertItem codec crc32c item
    rw [Collection.loop, Collection.loop]
    rcases hround : c.upsertItem codec crc32c item with ⟨after, result⟩
    rcases hround' : c'.upsertItem codec crc32c item with ⟨after', result'⟩
    rw [hround, hround'] at hcontents hresult
    dsimp only at hcontents hresult
    subst hresult
    cases result with
    | error e => exact ⟨hcontents, rfl⟩
    | ok u => exact ih hcontents

variable (codec crc32c) in
/-- The items went through the collection that was there, if there are any. -/
def Ran (before after : Option (Collection P D)) (items : List (UpsertItem P)) : Prop :=
  (Option.Rel SameContents after before ∧ items = []) ∨
    ∃ c c', before = some c ∧ after = some c' ∧
      (loop (upsertItem codec crc32c) c items).2 = .ok () ∧
      SameContents c' (loop (upsertItem codec crc32c) c items).1

theorem ran_nil (before : Option (Collection P D)) : Ran codec crc32c before before [] :=
  .inl ⟨sameContents_rel_refl before, rfl⟩

theorem Ran.loop {before after : Option (Collection P D)}
    (hran : Ran codec crc32c before after items) (hsome : items ≠ []) :
    ∃ c c', before = some c ∧ after = some c' ∧
      (Collection.loop (Collection.upsertItem codec crc32c) c items).2 = .ok () ∧
      SameContents c' (Collection.loop (Collection.upsertItem codec crc32c) c items).1 :=
  hran.resolve_left fun hnone => hsome hnone.2

theorem ran_upsert {info : OperationInfo} (hok : (c.upsert codec crc32c items).2 = .ok info) :
    Ran codec crc32c (some c) (some (c.upsert codec crc32c items).1) items := by
  refine .inr ⟨c, _, rfl, rfl, ?_, sameContents_upsert c items⟩
  rw [upsert] at hok
  rcases hloop : loop (upsertItem codec crc32c) c items with ⟨after, e | _⟩
  · rw [hloop] at hok
    exact absurd hok (by simp [complete])
  · rfl

theorem Ran.append {before middle after : Option (Collection P D)}
    {rest : List (UpsertItem P)} (hfirst : Ran codec crc32c before middle items)
    (hnext : Ran codec crc32c middle after rest) :
    Ran codec crc32c before after (items ++ rest) := by
  rcases hfirst with ⟨hsame, rfl⟩ | ⟨c, c', rfl, rfl, hok, hsame⟩
  · rw [List.nil_append]
    rcases hnext with ⟨hsame', rfl⟩ | ⟨c, c', rfl, rfl, hok, hsame'⟩
    · refine .inl ⟨?_, rfl⟩
      cases hsame with
      | none =>
        cases hsame'
        exact .none
      | some hsame =>
        cases hsame' with
        | some hsame' => exact .some (hsame'.trans hsame)
    · cases hsame with
      | @some _ b hsame =>
        obtain ⟨hcontents, hresult⟩ := hsame.loop codec crc32c rest
        exact .inr ⟨b, c', rfl, rfl, hresult ▸ hok, hsame'.trans hcontents⟩
  · rcases hnext with ⟨hsame', rfl⟩ | ⟨d, d', hd, rfl, hok', hsame'⟩
    · rw [List.append_nil]
      cases hsame' with
      | @some a _ hsame' => exact .inr ⟨c, a, rfl, rfl, hok, hsame'.trans hsame⟩
    · obtain rfl := Option.some.inj hd
      obtain ⟨hcontents, hresult⟩ := hsame.loop codec crc32c rest
      refine .inr ⟨c, d', rfl, rfl, ?_, ?_⟩
      · rw [loop_append hok, ← hresult, hok']
      · rw [loop_append hok]
        exact hsame'.trans hcontents

/-- What goes through a collection decides what it holds. -/
theorem Ran.same {before after after' : Option (Collection P D)}
    (hran : Ran codec crc32c before after items) (hran' : Ran codec crc32c before after' items) :
    Option.Rel SameContents after after' := by
  rcases hran with ⟨hsame, rfl⟩ | ⟨c, c', rfl, rfl, -, hsame⟩
  · rcases hran' with ⟨hsame', -⟩ | ⟨c, c', rfl, rfl, -, hsame'⟩
    · cases hsame with
      | none =>
        cases hsame'
        exact .none
      | some hsame =>
        cases hsame' with
        | some hsame' => exact .some (hsame.trans hsame'.symm)
    · cases hsame with
      | some hsame => exact .some (hsame.trans hsame'.symm)
  · rcases hran' with ⟨hsame', rfl⟩ | ⟨d, d', hd, rfl, -, hsame'⟩
    · cases hsame' with
      | some hsame' => exact .some (hsame.trans hsame'.symm)
    · obtain rfl := Option.some.inj hd
      exact .some (hsame.trans hsame'.symm)

/-! ## What the log tells of a loop -/

/-- The log grows by the texts of the items. -/
theorem logged_loop {logged : List (Record P × List UInt8)}
    (hok : (loop (upsertItem codec crc32c) c items).2 = .ok ())
    (hlog : Logged codec crc32c c.storage.engine.wal logged) :
    Logged codec crc32c (loop (upsertItem codec crc32c) c items).1.storage.engine.wal
        (logged ++ items.flatMap fun item => accepted codec item.record) ∧
      ∀ item ∈ items, ∃ data, accepted codec item.record = [(item.record, data)] := by
  induction items generalizing c logged with
  | nil =>
    rw [List.flatMap_nil, List.append_nil]
    exact ⟨hlog, fun item hitem => absurd hitem List.not_mem_nil⟩
  | cons item items ih =>
    have htakes : c.Takes codec item := by
      rw [← upsertItem_ok_iff codec crc32c]
      rw [loop] at hok
      rcases hround : c.upsertItem codec crc32c item with ⟨after, e | _⟩
      · rw [hround] at hok
        exact absurd hok (by simp)
      · rfl
    have hcall := write_call codec crc32c c.storage item.record
    rw [UpsertItem.record, System.write] at hcall
    rw [loop, upsertItem, if_neg (not_not.mpr htakes.1)] at hok ⊢
    rcases hput : c.storage.put codec crc32c item.id item.vector item.timestamp with ⟨storage, e | _⟩
    · rw [hput] at hok
      exact absurd hok (by simp)
    · rw [hput] at hcall hok
      cases hcall with
      | done wal data count hdata hholds haccepted t ht =>
        have hwal : t.engine.wal = wal := by
          rw [ht, maybeFlush_wal]
          rfl
        have hnext := hlog.append hdata hholds
        rw [← hwal] at hnext
        obtain ⟨hlogged, htexts⟩ := ih hok hnext
        rw [List.flatMap_cons, ← List.append_assoc]
        exact ⟨hlogged, List.forall_mem_cons.mpr ⟨⟨data, hdata⟩, htexts⟩⟩

/-- Loops that leave the same have logged the same texts. -/
theorem texts_of_sameContents {f g : UpsertItem P → UpsertItem P}
    {logged : List (Record P × List UInt8)}
    (hlog : Logged codec crc32c c.storage.engine.wal logged)
    (htext : ∀ r, codec.toVec r ≠ .ok [])
    (hok : (loop (upsertItem codec crc32c) c (items.map f)).2 = .ok ())
    (hok' : (loop (upsertItem codec crc32c) c (items.map g)).2 = .ok ())
    (hsame : SameContents (loop (upsertItem codec crc32c) c (items.map f)).1
      (loop (upsertItem codec crc32c) c (items.map g)).1) :
    ∀ item ∈ items, codec.toVec (f item).record = codec.toVec (g item).record := by
  obtain ⟨hf, hdata⟩ := logged_loop hok hlog
  obtain ⟨hg, hdata'⟩ := logged_loop hok' hlog
  have hsound : ∀ {w : WAL} {logged : List (Record P × List UInt8)}, Logged codec crc32c w logged →
      ∀ d ∈ logged.map Prod.snd, d ≠ [] ∧ d.length ≤ maxRecordSize := by
    intro w logged hlogged d hd
    obtain ⟨l, hl, rfl⟩ := List.mem_map.mp hd
    refine ⟨fun hnil => htext l.1 ?_, hlogged.sizes l hl⟩
    rw [← hnil]
    exact hlogged.texts l hl
  have hwal := congrArg (fun s => s.engine.wal) hsame.2.1
  rw [← hwal] at hg
  have htexts := holds_unique hf.holds hg.holds (hsound hf) (hsound hg)
  rw [List.map_append, List.map_append] at htexts
  have hrest := List.append_cancel_left htexts
  clear hf hg hok hok' hsame hwal htexts
  induction items with
  | nil => exact fun item hitem => absurd hitem List.not_mem_nil
  | cons item items ih =>
    obtain ⟨⟨data, hfirst⟩, hdata⟩ := List.forall_mem_cons.mp hdata
    obtain ⟨⟨data', hfirst'⟩, hdata'⟩ := List.forall_mem_cons.mp hdata'
    rw [List.map_cons, List.map_cons, List.flatMap_cons, List.flatMap_cons, hfirst, hfirst'] at hrest
    obtain ⟨hsame, hrest⟩ := List.cons.inj hrest
    refine List.forall_mem_cons.mpr ⟨?_, ih hdata hdata' hrest⟩
    rw [(accepted_text hfirst).1, (accepted_text hfirst').1]
    exact congrArg Except.ok hsame

end Parts

end Collection
end RTDB
