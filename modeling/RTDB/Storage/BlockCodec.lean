import RTDB.Storage.Engine

/-!
# Blocks, written and read

A block reads back while its lengths fit the fields that hold them.  A block of
which the file gives back a part only loses one of its entries at least.
-/

namespace RTDB
namespace Storage

open Bytes Layers Outcomes

variable {P : Type}

/-- What a table relies on: a payload text and the metadata `m` are read back,
and a payload text that is cut off is refused. -/
structure Codec.Faithful {P : Type} (codec : Codec P) (m : SSTableMeta) : Prop where
  payload : ∀ p, codec.payloadFromSlice (codec.payloadToVec p) = .ok (some p)
  payload_ne_nil : ∀ p, codec.payloadToVec p ≠ []
  payload_cut : ∀ p k, k < (codec.payloadToVec p).length →
    ∃ e, codec.payloadFromSlice ((codec.payloadToVec p).take k) = .error e
  metadata : codec.metaFromSlice (codec.metaToVec m) = .ok m
  metadata_ne_nil : codec.metaToVec m ≠ []

/-! ## One entry -/

/-- The components of a vector, as they are written. -/
def componentBytes (data : List UInt32) : List UInt8 := data.flatMap fun x => leBytes 4 x.toNat

theorem componentBytes_length (data : List UInt32) :
    (componentBytes data).length = data.length * 4 := by
  induction data with
  | nil => rfl
  | cons x data ih =>
    rw [componentBytes] at ih
    rw [componentBytes, List.flatMap_cons, List.length_append, length_leBytes, ih,
      List.length_cons]
    omega

theorem decodeComponents_componentBytes (data : List UInt32) (rest : List UInt8) :
    decodeComponents data.length (componentBytes data ++ rest) = data := by
  induction data with
  | nil => rfl
  | cons x data ih =>
    have hx : leNat (leBytes 4 x.toNat) = x.toNat :=
      leNat_leBytes_of_lt (show x.toNat < 256 ^ 4 from x.toNat_lt)
    have hsplit : componentBytes (x :: data) ++ rest =
        leBytes 4 x.toNat ++ (componentBytes data ++ rest) := by
      rw [componentBytes, List.flatMap_cons, List.append_assoc]
      rfl
    rw [hsplit, List.length_cons, decodeComponents, List.take_left' (length_leBytes 4 _),
      List.drop_left' (length_leBytes 4 _), hx, ih, UInt32.ofNat_toNat]

/-- An entry up to its payload text. -/
def entryHead (id : VectorId) (data : List UInt32) (payloadLen : Nat) : List UInt8 :=
  leBytes 8 id ++ (leBytes 4 data.length ++ (componentBytes data ++ leBytes 4 payloadLen))

theorem entryHead_length (id : VectorId) (data : List UInt32) (payloadLen : Nat) :
    (entryHead id data payloadLen).length = 16 + data.length * 4 := by
  rw [entryHead, List.length_append, List.length_append, List.length_append, length_leBytes,
    length_leBytes, length_leBytes, componentBytes_length]
  omega

def payloadText (codec : Codec P) (payload : Option P) : List UInt8 :=
  payload.elim [] codec.payloadToVec

theorem encodeEntry_eq (codec : Codec P) (entry : VectorId × Vector P) :
    Block.encodeEntry codec entry =
      entryHead entry.1 entry.2.data (payloadText codec entry.2.payload).length ++
        payloadText codec entry.2.payload := by
  obtain ⟨id, data, payload⟩ := entry
  cases payload <;> simp [Block.encodeEntry, entryHead, payloadText, componentBytes]

theorem entryHead_fields (id : VectorId) (data : List UInt32) (payloadLen : Nat)
    (rest : List UInt8) :
    (entryHead id data payloadLen ++ rest).take 8 = leBytes 8 id ∧
      ((entryHead id data payloadLen ++ rest).drop 8).take 4 = leBytes 4 data.length ∧
      (entryHead id data payloadLen ++ rest).drop 12 =
        componentBytes data ++ (leBytes 4 payloadLen ++ rest) := by
  have hdrop : (entryHead id data payloadLen ++ rest).drop 8 =
      leBytes 4 data.length ++ (componentBytes data ++ (leBytes 4 payloadLen ++ rest)) := by
    rw [entryHead, List.append_assoc, List.drop_left' (length_leBytes 8 _)]
    simp only [List.append_assoc]
  refine ⟨?_, ?_, ?_⟩
  · rw [entryHead, List.append_assoc, List.take_left' (length_leBytes 8 _)]
  · rw [hdrop, List.take_left' (length_leBytes 4 _)]
  · rw [← List.drop_drop (i := 4) (j := 8), hdrop, List.drop_left' (length_leBytes 4 _)]

section Decoding

variable (codec : Codec P) {id : VectorId} {data : List UInt32}

/-- The reading loop behind the head of an entry. -/
def decodeTail (codec : Codec P) (count : Nat) (id : VectorId) (data : List UInt32)
    (payloadLen : Nat) (rest : List UInt8) : Except RTDBError (List (VectorId × Vector P)) :=
  if payloadLen > 0 then
    if rest.length < payloadLen then .ok []
    else
      match codec.payloadFromSlice (rest.take payloadLen) with
      | .error e => .error (.serialization e)
      | .ok payload =>
        (decodeEntries codec count (rest.drop payloadLen)).map ((id, { data, payload }) :: ·)
  else (decodeEntries codec count rest).map ((id, { data, payload := none }) :: ·)

theorem decodeEntries_head (count : Nat) (hid : id < 2 ^ 64) (hdata : data.length < 2 ^ 32)
    (payloadLen : Nat) (rest : List UInt8) :
    decodeEntries codec (count + 1) (entryHead id data payloadLen ++ rest) =
      decodeTail codec count id data (payloadLen % 2 ^ 32) rest := by
  obtain ⟨hfirst, hsecond, hthird⟩ := entryHead_fields id data payloadLen rest
  have hlength := entryHead_length id data payloadLen
  have hid' : leNat (leBytes 8 id) = id := leNat_leBytes_of_lt hid
  have hdim : leNat (leBytes 4 data.length) = data.length := leNat_leBytes_of_lt hdata
  have hcomponents := componentBytes_length data
  have hmod : leNat (leBytes 4 payloadLen) = payloadLen % 2 ^ 32 := leNat_leBytes 4 payloadLen
  rw [decodeEntries, if_neg (by rw [List.length_append]; omega),
    if_neg (by rw [List.length_append]; omega)]
  simp only [hfirst, hsecond, hthird, hdim, hid']
  rw [if_neg (by rw [List.length_append]; omega), List.drop_left' hcomponents,
    if_neg (by rw [List.length_append, length_leBytes]; omega),
    List.take_left' (length_leBytes 4 _), hmod, decodeComponents_componentBytes,
    ← List.drop_drop (i := 4) (j := data.length * 4), List.drop_left' hcomponents,
    List.drop_left' (length_leBytes 4 _)]
  rfl

/-- A head that is cut off ends the loop. -/
theorem decodeEntries_cut (count : Nat) (hdata : data.length < 2 ^ 32) {payloadLen n : Nat}
    (rest : List UInt8) (hn : n < (entryHead id data payloadLen).length) :
    decodeEntries codec (count + 1) ((entryHead id data payloadLen ++ rest).take n) = .ok [] := by
  obtain ⟨hfirst, hsecond, hthird⟩ := entryHead_fields id data payloadLen rest
  have hlength := entryHead_length id data payloadLen
  have hdim : leNat (leBytes 4 data.length) = data.length := leNat_leBytes_of_lt hdata
  have htake : ((entryHead id data payloadLen ++ rest).take n).length = n := by
    rw [List.length_take, List.length_append]
    omega
  rw [decodeEntries]
  split
  · rfl
  · split
    · rfl
    · have hfield : (((entryHead id data payloadLen ++ rest).take n).drop 8).take 4 =
          leBytes 4 data.length := by
        rw [List.drop_take, List.take_take, Nat.min_eq_left (by omega), hsecond]
      have hrest : (((entryHead id data payloadLen ++ rest).take n).drop 12).length = n - 12 := by
        rw [List.length_drop, htake]
      simp only [hfield, hdim, List.length_drop, htake]
      split
      · rfl
      · rw [if_pos (by omega)]

end Decoding

/-! ## Entries in a row -/

def Writable (entry : VectorId × Vector P) : Prop :=
  entry.1 < 2 ^ 64 ∧ entry.2.data.length * 4 < 2 ^ 32

section Row

variable {codec : Codec P} {m : SSTableMeta}

theorem decodeTail_whole (hcodec : codec.Faithful m) (count : Nat)
    (entry : VectorId × Vector P) (rest : List UInt8)
    (htext : (payloadText codec entry.2.payload).length < 2 ^ 32) :
    decodeTail codec count entry.1 entry.2.data
        ((payloadText codec entry.2.payload).length % 2 ^ 32)
        (payloadText codec entry.2.payload ++ rest) =
      (decodeEntries codec count rest).map (entry :: ·) := by
  obtain ⟨id, data, payload⟩ := entry
  rw [Nat.mod_eq_of_lt htext, decodeTail]
  cases payload with
  | none =>
    rw [if_neg (by simp [payloadText])]
    rfl
  | some p =>
    have hpos : 0 < (payloadText codec (some p)).length :=
      List.length_pos_iff.mpr (hcodec.payload_ne_nil p)
    have hback : codec.payloadFromSlice (payloadText codec (some p)) = .ok (some p) :=
      hcodec.payload p
    rw [if_pos hpos, if_neg (by rw [List.length_append]; omega), List.take_left' rfl,
      List.drop_left' rfl]
    simp only [hback]

theorem decodeEntries_whole (hcodec : codec.Faithful m) (es : List (VectorId × Vector P))
    (rest : List UInt8) (hes : ∀ entry ∈ es, Writable entry)
    (htext : ∀ entry ∈ es, (payloadText codec entry.2.payload).length < 2 ^ 32) :
    decodeEntries codec es.length (es.flatMap (Block.encodeEntry codec) ++ rest) = .ok es := by
  induction es with
  | nil => rfl
  | cons entry es ih =>
    obtain ⟨⟨hid, hdata⟩, hes⟩ := List.forall_mem_cons.mp hes
    obtain ⟨htext, htexts⟩ := List.forall_mem_cons.mp htext
    rw [List.flatMap_cons, List.append_assoc, encodeEntry_eq, List.append_assoc, List.length_cons,
      decodeEntries_head codec _ hid (by omega), decodeTail_whole hcodec _ entry _ htext,
      ih hes htexts]
    rfl

/-- Where the bytes are cut, an entry is lost or comes back changed. -/
theorem decodeEntries_lossy (hcodec : codec.Faithful m) {es l : List (VectorId × Vector P)}
    {count n : Nat} (hes : ∀ entry ∈ es, Writable entry) (hdistinct : es.Pairwise (·.1 ≠ ·.1))
    (hn : n < (es.flatMap (Block.encodeEntry codec)).length)
    (hread : decodeEntries codec count ((es.flatMap (Block.encodeEntry codec)).take n) = .ok l) :
    ∃ entry ∈ es, held l entry.1 ≠ some entry.2 := by
  induction es generalizing l count n with
  | nil => exact absurd hn (Nat.not_lt_zero n)
  | cons entry es ih =>
    obtain ⟨⟨hid, hdata⟩, hes⟩ := List.forall_mem_cons.mp hes
    obtain ⟨hfirst, hdistinct⟩ := List.pairwise_cons.mp hdistinct
    have hempty : l = [] → ∃ entry' ∈ entry :: es, held l entry'.1 ≠ some entry'.2 := by
      rintro rfl
      exact ⟨entry, List.mem_cons_self, by simp⟩
    -- A later entry that is lost stays lost behind this one.
    have hlater : ∀ count' n' l', n' < (es.flatMap (Block.encodeEntry codec)).length →
        decodeEntries codec count' ((es.flatMap (Block.encodeEntry codec)).take n') = .ok l' →
          ∃ entry' ∈ entry :: es, held (entry :: l') entry'.1 ≠ some entry'.2 := by
      intro count' n' l' hn' hread'
      obtain ⟨entry', hentry', hlost⟩ := ih hes hdistinct hn' hread'
      refine ⟨entry', List.mem_cons_of_mem entry hentry', ?_⟩
      rw [held_cons, if_neg (hfirst entry' hentry')]
      exact hlost
    cases count with
    | zero => exact hempty (Except.ok.inj hread).symm
    | succ count =>
      rw [List.flatMap_cons, encodeEntry_eq, List.append_assoc] at hread
      rw [List.flatMap_cons, encodeEntry_eq, List.append_assoc, List.length_append,
        List.length_append] at hn
      rcases Nat.lt_or_ge n (entryHead entry.1 entry.2.data
        (payloadText codec entry.2.payload).length).length with hcut | hhead
      · rw [decodeEntries_cut codec count (by omega) _ hcut] at hread
        exact hempty (Except.ok.inj hread).symm
      · obtain ⟨k, rfl⟩ := Nat.exists_eq_add_of_le hhead
        rw [List.take_length_add_append, decodeEntries_head codec _ hid (by omega)] at hread
        obtain ⟨id, data, payload⟩ := entry
        cases payload with
        | none =>
          rw [decodeTail, if_neg (by simp [payloadText])] at hread
          obtain ⟨l', hread', rfl⟩ := map_eq_ok hread
          exact hlater _ _ _ (by simpa [payloadText] using hn) hread'
        | some p =>
          dsimp only at hread hn
          have hle : (payloadText codec (some p)).length % 2 ^ 32 ≤
              (payloadText codec (some p)).length := Nat.mod_le _ _
          rw [decodeTail] at hread
          split at hread
          · split at hread
            · exact hempty (Except.ok.inj hread).symm
            · rename_i hlong
              rw [List.length_take] at hlong
              rw [List.take_take, Nat.min_eq_left (by omega),
                List.take_append_of_le_length hle] at hread
              rcases Nat.lt_or_ge ((payloadText codec (some p)).length % 2 ^ 32)
                (payloadText codec (some p)).length with hlt | hge
              · obtain ⟨e, hrefused⟩ := hcodec.payload_cut p _ hlt
                have hcut : codec.payloadFromSlice ((payloadText codec (some p)).take
                    ((payloadText codec (some p)).length % 2 ^ 32)) = .error e := hrefused
                simp only [hcut] at hread
                exact absurd hread (by simp)
              · have hback : codec.payloadFromSlice (payloadText codec (some p)) = .ok (some p) :=
                  hcodec.payload p
                have hlength := Nat.le_antisymm hle hge
                rw [hlength, List.take_length, List.drop_take, List.drop_left' rfl] at hread
                rw [hback] at hread
                obtain ⟨l', hread', rfl⟩ := map_eq_ok hread
                exact hlater _ _ _ (by omega) hread'
          · -- The payload is lost.
            obtain ⟨l', -, rfl⟩ := map_eq_ok hread
            refine ⟨_, List.mem_cons_self, ?_⟩
            rw [held_cons, if_pos rfl]
            simp

/-! ## Blocks -/

def blockBytes (codec : Codec P) (es : List (VectorId × Vector P)) : List UInt8 :=
  leBytes 4 es.length ++ es.flatMap (Block.encodeEntry codec)

theorem blockBytes_length (codec : Codec P) (es : List (VectorId × Vector P)) :
    (blockBytes codec es).length = 4 + (es.flatMap (Block.encodeEntry codec)).length := by
  rw [blockBytes, List.length_append, length_leBytes]

theorem encodeEntry_length (codec : Codec P) (entry : VectorId × Vector P) :
    (Block.encodeEntry codec entry).length =
      16 + entry.2.data.length * 4 + (payloadText codec entry.2.payload).length := by
  rw [encodeEntry_eq, List.length_append, entryHead_length]

theorem length_le_flatMap (codec : Codec P) (es : List (VectorId × Vector P)) :
    es.length ≤ (es.flatMap (Block.encodeEntry codec)).length := by
  induction es with
  | nil => exact Nat.le_refl 0
  | cons entry es ih =>
    rw [List.flatMap_cons, List.length_append, encodeEntry_length, List.length_cons]
    omega

theorem text_le_flatMap (codec : Codec P) {es : List (VectorId × Vector P)} :
    ∀ entry ∈ es, (payloadText codec entry.2.payload).length ≤
      (es.flatMap (Block.encodeEntry codec)).length := by
  induction es with
  | nil => exact fun entry hentry => absurd hentry List.not_mem_nil
  | cons entry es ih =>
    rw [List.flatMap_cons, List.length_append, encodeEntry_length]
    refine List.forall_mem_cons.mpr ⟨by omega, fun entry' hentry' => ?_⟩
    have hle := ih entry' hentry'
    omega

theorem decodeBlock_whole (hcodec : codec.Faithful m) {es : List (VectorId × Vector P)}
    (hes : ∀ entry ∈ es, Writable entry) (hlength : (blockBytes codec es).length < 2 ^ 32) :
    decodeBlock codec (blockBytes codec es) = .ok es := by
  have hcount := length_le_flatMap codec es
  rw [blockBytes_length] at hlength
  have hback : leNat (leBytes 4 es.length) = es.length :=
    leNat_leBytes_of_lt (show es.length < 2 ^ 32 by omega)
  have hall := decodeEntries_whole hcodec es [] hes fun entry hentry => by
    have hle := text_le_flatMap codec entry hentry
    omega
  rw [List.append_nil] at hall
  rw [decodeBlock, if_neg (by rw [blockBytes_length]; omega), blockBytes,
    List.take_left' (length_leBytes 4 _), List.drop_left' (length_leBytes 4 _), hback, hall]

theorem decodeBlock_lossy (hcodec : codec.Faithful m) {es l : List (VectorId × Vector P)} {n : Nat}
    (hes : ∀ entry ∈ es, Writable entry) (hdistinct : es.Pairwise (·.1 ≠ ·.1)) (hne : es ≠ [])
    (hn : n < (blockBytes codec es).length)
    (hread : decodeBlock codec ((blockBytes codec es).take n) = .ok l) :
    ∃ entry ∈ es, held l entry.1 ≠ some entry.2 := by
  rw [blockBytes_length] at hn
  rw [decodeBlock] at hread
  split at hread
  · obtain ⟨entry, hentry⟩ := List.exists_mem_of_ne_nil es hne
    obtain rfl := Except.ok.inj hread
    exact ⟨entry, hentry, by simp⟩
  · rename_i hlong
    rw [List.length_take, blockBytes_length] at hlong
    have hdrop : ((blockBytes codec es).take n).drop 4 =
        (es.flatMap (Block.encodeEntry codec)).take (n - 4) := by
      rw [List.drop_take, blockBytes, List.drop_left' (length_leBytes 4 _)]
    rw [hdrop] at hread
    exact decodeEntries_lossy hcodec hes hdistinct (by omega) hread

end Row

end Storage
end RTDB
