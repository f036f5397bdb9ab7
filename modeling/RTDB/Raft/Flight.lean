import RTDB.Raft.Roles
import Mathlib.Algebra.GroupWithZero.Nat
import Mathlib.Algebra.Order.BigOperators.Group.List
import Mathlib.Algebra.Order.Group.Nat

/-!
# Messages in flight

Deliveries alone, with no tick, proposal or ready in between.  A handler answers
with messages that come to less than the one it was handed, except for a
heartbeat: that is answered with a heartbeat.
-/

namespace RTDB
namespace Raft

open Runs

/-! ## What a message costs -/

/-- How many deliveries a message of a kind may lead to, its own included, in a
cluster where a node has at most `peers` others. -/
def MessageType.cost (peers : Nat) : MessageType → Nat
  | .appendResponse | .snapshotResponse | .timeoutNow => 1
  | .heartbeat | .appendEntries | .installSnapshot => 2
  | .voteResponse => peers * 2 + 1
  | .requestVote => peers * 2 + 2
  | .preVoteResponse => peers * (peers * 2 + 2) + 1
  | .requestPreVote => peers * (peers * 2 + 2) + 2

/-- What messages cost, none of which is a heartbeat. -/
structure Costs (peers : Nat) (ms : List Message) (bound : Nat) : Prop where
  quiet : ∀ m ∈ ms, m.msgType ≠ .heartbeat
  below : (ms.map fun m => m.msgType.cost peers).sum < bound

variable {peers : Nat}

theorem Costs.silent {ms : List Message} {bound : Nat} (hms : ms = []) (hpos : 0 < bound) :
    Costs peers ms bound := by
  subst hms
  exact ⟨fun m hm => absurd hm List.not_mem_nil, hpos⟩

theorem Costs.one {ms : List Message} {m : Message} {bound : Nat} (hms : ms = [m])
    (hbeat : m.msgType ≠ .heartbeat) (hlt : m.msgType.cost peers < bound) :
    Costs peers ms bound := by
  subst hms
  refine ⟨fun m' hm' => ?_, by simpa using hlt⟩
  rw [List.mem_singleton.mp hm']
  exact hbeat

theorem Costs.toPeers {ids : List NodeId} {f : NodeId → Message} {msgType : MessageType}
    {bound : Nat} (hf : ∀ p, (f p).msgType = msgType) (hbeat : msgType ≠ .heartbeat)
    (hlen : ids.length ≤ peers) (hlt : peers * msgType.cost peers < bound) :
    Costs peers (ids.map f) bound := by
  refine ⟨fun m hm => ?_, ?_⟩
  · obtain ⟨p, -, rfl⟩ := List.mem_map.mp hm
    rw [hf]
    exact hbeat
  · have hsum : ((ids.map f).map fun m => m.msgType.cost peers).sum =
        ids.length * msgType.cost peers := by
      rw [List.map_map, ← List.sum_replicate_nat, ← List.map_const']
      congr 1
      exact List.map_congr_left fun p _ => congrArg _ (hf p)
    have hle := Nat.mul_le_mul_right (msgType.cost peers) hlen
    omega

namespace RaftNode

variable {n : RaftNode} {msg : Message} (env : Env)

theorem campaign_costs (hlen : n.peers.length ≤ peers) :
    Costs peers (n.campaign env).messages (MessageType.preVoteResponse.cost peers) := by
  rw [Output.messages]
  exact @Costs.toPeers _ _ _ .requestVote _ (fun _ => rfl) (by simp) hlen (Nat.lt_succ_self _)

theorem handle_costs (hlen : n.peers.length ≤ peers) (hbeat : msg.msgType ≠ .heartbeat) :
    Costs peers (n.handle env msg).messages (msg.msgType.cost peers) := by
  unfold handle
  split
  · exact absurd (by assumption) hbeat
  · rename_i htype
    rw [htype]
    unfold handleAppendEntries
    simp only
    split
    · exact .one rfl (by simp [Message.new, Message.withReject])
        (by simp [Message.new, Message.withReject, MessageType.cost])
    · split
      · exact .one rfl (by simp [Message.new, Message.withReject])
          (by simp [Message.new, Message.withReject, MessageType.cost])
      · exact .one rfl (by simp) (by simp [MessageType.cost])
  · rename_i htype
    rw [htype]
    unfold handleAppendResponse
    split
    · exact .silent rfl Nat.one_pos
    · split
      · exact .silent rfl Nat.one_pos
      · split <;> exact .silent rfl Nat.one_pos
  · rename_i htype
    rw [htype]
    unfold handleRequestVote
    split
    · exact .one rfl (by simp [Message.new, Message.withReject])
        (by simp [Message.new, Message.withReject, MessageType.cost])
    · exact .one rfl (by simp) (by simp [MessageType.cost])
  · rename_i htype
    rw [htype]
    unfold handleVoteResponse
    split
    · exact .silent rfl (Nat.succ_pos _)
    · simp only
      split
      · rw [Output.messages]
        have hcosts : Costs peers (n.countVote msg).becomeLeader.buildAppendAcks.messages
            (MessageType.voteResponse.cost peers) :=
          @Costs.toPeers _ _ _ .appendEntries _ (fun _ => rfl) (by simp) hlen (Nat.lt_succ_self _)
        simpa using hcosts
      · split <;> exact .silent rfl (Nat.succ_pos _)
  · rename_i htype
    rw [htype]
    exact .one rfl (by simp) (by simp [MessageType.cost])
  · rename_i htype
    rw [htype]
    unfold handlePreVoteResponse
    split
    · exact .silent rfl (Nat.succ_pos _)
    · simp only
      split
      · exact campaign_costs (n := n.countVote msg) env hlen
      · exact .silent rfl (Nat.succ_pos _)
  · rename_i htype
    rw [htype]
    unfold handleInstallSnapshot
    split
    · exact .silent rfl (Nat.succ_pos _)
    · simp only
      split
      · exact .silent rfl (Nat.succ_pos _)
      · exact .one rfl (by simp) (by simp [MessageType.cost])
  · rename_i htype
    rw [htype]
    unfold handleSnapshotResponse
    split
    · exact .silent rfl Nat.one_pos
    · split
      · exact .silent rfl Nat.one_pos
      · split <;> exact .silent rfl Nat.one_pos
  · rename_i htype
    rw [htype]
    exact .silent rfl Nat.one_pos

theorem observeTerm_peers (n : RaftNode) (msg : Message) :
    (n.observeTerm env msg).peers = n.peers := by
  rw [peers, peers, observeTerm_confState env n msg]
  show n.confState.voters.filter (· ≠ (n.observeTerm env msg).config.id) = _
  rw [observeTerm_config env n msg]
  rfl

theorem step_costs (hlen : n.peers.length ≤ peers) (hbeat : msg.msgType ≠ .heartbeat) :
    Costs peers (n.step env msg).messages (msg.msgType.cost peers) := by
  refine handle_costs env ?_ hbeat
  rw [observeTerm_peers]
  exact hlen

/-- A stale heartbeat is dropped; any other comes back from the node's new term. -/
theorem step_heartbeat_messages (htype : msg.msgType = .heartbeat) :
    (n.step env msg).messages =
      if msg.term < n.term then [] else [Message.new .heartbeat n.id msg.from_ msg.term] := by
  have hstale : msg.term < (n.observeTerm env msg).term ↔ msg.term < n.term :=
    observeTerm_stale env
  have hid : (n.observeTerm env msg).id = n.id :=
    congrArg Config.id (observeTerm_config env n msg)
  have hle := @le_observeTerm n msg env
  rw [step, handle, htype]
  show (handleHeartbeat env _ msg).messages = _
  unfold handleHeartbeat
  simp only
  by_cases hterm : msg.term < n.term
  · rw [if_pos (show msg.term < (resetElectionTimeout env _).term from hstale.mpr hterm),
      if_pos hterm]
    rfl
  · rw [if_neg (show ¬ msg.term < (resetElectionTimeout env _).term from
      fun hlt => hterm (hstale.mp hlt)), if_neg hterm]
    have hequal : (n.observeTerm env msg).term = msg.term := by
      have hnot := hstale.not.mpr hterm
      omega
    show [Message.new .heartbeat (n.observeTerm env msg).id msg.from_
      (n.observeTerm env msg).term] = _
    rw [hid, hequal]

theorem step_heartbeat_term (htype : msg.msgType = .heartbeat) (hterm : n.term ≤ msg.term) :
    (n.step env msg).node.term ≤ msg.term := by
  have hobserved : (n.observeTerm env msg).term ≤ msg.term := by
    unfold observeTerm
    split
    · exact Nat.le_refl _
    · exact hterm
  rw [step, handle, htype]
  show (handleHeartbeat env _ msg).node.term ≤ _
  unfold handleHeartbeat
  simp only
  split <;> exact hobserved

end RaftNode

open RaftNode

/-! ## Deliveries -/

/-- One of the messages in flight is delivered, and what the call sends is in
flight afterwards. -/
def Delivers (c c' : Cluster) : Prop :=
  ∃ before msg after env, c.net = before ++ msg :: after ∧
    c' = Cluster.apply { c with net := before ++ after } (.deliver msg env)

def Drains (c : Cluster) : Prop := Ends Delivers (fun c => c.net = []) c

/-- A heartbeat that neither its sender nor its receiver has left behind. -/
def Bounces (c : Cluster) (m : Message) : Prop :=
  m.msgType = .heartbeat ∧ (c.node m.from_).term ≤ m.term ∧ (c.node m.to_).term ≤ m.term

instance (c : Cluster) (m : Message) : Decidable (Bounces c m) :=
  inferInstanceAs (Decidable (_ ∧ _))

variable {S : Setup} {c c' : Cluster}

theorem Cluster.apply_node_net (c : Cluster) (net : List Message) (e : Event) :
    (Cluster.apply { c with net } e).node = (c.apply e).node := by
  rw [Cluster.apply_eq, Cluster.apply_eq]
  rfl

theorem Cluster.apply_net (c : Cluster) (net : List Message) (msg : Message) (env : Env) :
    (Cluster.apply { c with net } (.deliver msg env)).net =
      net ++ ((c.node msg.to_).step env msg).messages := rfl

theorem Wired.peers_le {i : NodeId} {n : RaftNode} (hw : Wired S i n) :
    n.peers.length ≤ S.voters.length := by
  rw [← hw.voters]
  exact List.length_filter_le _ _

/-! ## The load -/

/-- What a message in flight may still lead to: a heartbeat its receiver has left
behind is not answered. -/
def weight (peers : Nat) (c : Cluster) (m : Message) : Nat :=
  if m.msgType = .heartbeat ∧ m.term < (c.node m.to_).term then 1 else m.msgType.cost peers

def load (peers : Nat) (c : Cluster) : Nat := (c.net.map (weight peers c)).sum

theorem weight_le_cost (peers : Nat) (c : Cluster) (m : Message) :
    weight peers c m ≤ m.msgType.cost peers := by
  unfold weight
  split
  · rename_i hstale
    rw [hstale.1]
    exact Nat.le_succ 1
  · exact Nat.le_refl _

theorem weight_le {peers : Nat} {m : Message}
    (hterm : ∀ i, (c.node i).term ≤ (c'.node i).term) : weight peers c' m ≤ weight peers c m := by
  by_cases hstale : m.msgType = .heartbeat ∧ m.term < (c.node m.to_).term
  · have hstill : m.term < (c'.node m.to_).term := by
      have := hterm m.to_
      omega
    rw [weight, weight, if_pos hstale, if_pos ⟨hstale.1, hstill⟩]
  · have hcost := weight_le_cost peers c' m
    rw [show weight peers c m = m.msgType.cost peers from if_neg hstale]
    exact hcost

/-- The answer to a heartbeat that does not bounce goes to a node that has left the
term. -/
theorem left_behind {msg : Message} (hcold : ¬ Bounces c msg) (hbeat : msg.msgType = .heartbeat)
    (hterm : ¬ msg.term < (c.node msg.to_).term) (env : Env) :
    msg.term < ((c.apply (.deliver msg env)).node msg.from_).term := by
  have hfrom : msg.term < (c.node msg.from_).term := by
    by_contra hnot
    exact hcold ⟨hbeat, Nat.le_of_not_lt hnot, Nat.le_of_not_lt hterm⟩
  exact Nat.lt_of_lt_of_le hfrom (c.term_le_apply (.deliver msg env) msg.from_)

/-- What a delivery sends comes to less than what it delivers, unless that bounces. -/
theorem Cluster.Wired.sent_lt (hw : c.Wired S) {msg : Message} (env : Env)
    (hcold : ¬ Bounces c msg) :
    ((((c.node msg.to_).step env msg).messages).map
      (weight S.voters.length (c.apply (.deliver msg env)))).sum < weight S.voters.length c msg := by
  by_cases hbeat : msg.msgType = .heartbeat
  · rw [step_heartbeat_messages env hbeat]
    by_cases hterm : msg.term < (c.node msg.to_).term
    · rw [if_pos hterm, weight, if_pos ⟨hbeat, hterm⟩]
      exact Nat.one_pos
    · have hlater := left_behind hcold hbeat hterm env
      rw [if_neg hterm, weight, if_neg (fun hstale => hterm hstale.2), hbeat]
      simp only [List.map_cons, List.map_nil, List.sum_cons, List.sum_nil]
      rw [weight, if_pos ⟨rfl, hlater⟩]
      exact Nat.lt_succ_self 1
  · have hlen : (c.node msg.to_).peers.length ≤ S.voters.length := (hw msg.to_).peers_le
    have hcosts := (step_costs env hlen hbeat).below
    have hle : ((((c.node msg.to_).step env msg).messages).map
        (weight S.voters.length (c.apply (.deliver msg env)))).sum ≤
        ((((c.node msg.to_).step env msg).messages).map
          fun m => m.msgType.cost S.voters.length).sum :=
      List.sum_le_sum fun m _ => weight_le_cost _ _ m
    rw [show weight S.voters.length c msg = msg.msgType.cost S.voters.length from
      if_neg fun hstale => hbeat hstale.1]
    omega

/-- Nothing in flight bounces. -/
def Cold (S : Setup) (c : Cluster) : Prop := c.Wired S ∧ ∀ m ∈ c.net, ¬ Bounces c m

theorem Cold.delivers (hc : Cold S c) (hd : Delivers c c') : Cold S c' := by
  obtain ⟨before, msg, after, env, hnet, rfl⟩ := hd
  have hterms : ∀ i, (c.node i).term ≤ ((c.apply (.deliver msg env)).node i).term :=
    c.term_le_apply (.deliver msg env)
  have hcold := hc.2 msg (by simp [hnet])
  have hwired : Cluster.Wired S { c with net := before ++ after } := hc.1
  refine ⟨hwired.apply _, fun m hm => ?_⟩
  rintro ⟨hbeat, hfrom, hto⟩
  rw [Cluster.apply_node_net] at hfrom hto
  rw [Cluster.apply_net] at hm
  rcases List.mem_append.mp hm with hold | hnew
  · have hmem : m ∈ c.net := by
      rw [hnet]
      simp only [List.mem_append, List.mem_cons] at hold ⊢
      tauto
    exact hc.2 m hmem ⟨hbeat, Nat.le_trans (hterms _) hfrom, Nat.le_trans (hterms _) hto⟩
  · by_cases hkind : msg.msgType = .heartbeat
    · rw [step_heartbeat_messages env hkind] at hnew
      by_cases hterm : msg.term < (c.node msg.to_).term
      · rw [if_pos hterm] at hnew
        exact absurd hnew List.not_mem_nil
      · rw [if_neg hterm, List.mem_singleton] at hnew
        subst hnew
        have hlater := left_behind hcold hkind hterm env
        exact absurd hto (Nat.not_le_of_lt hlater)
    · have hlen : (c.node msg.to_).peers.length ≤ S.voters.length := (hc.1 msg.to_).peers_le
      exact (step_costs env hlen hkind).quiet m hnew hbeat

theorem Cold.load_lt (hc : Cold S c) (hd : Delivers c c') :
    load S.voters.length c' < load S.voters.length c := by
  obtain ⟨before, msg, after, env, hnet, rfl⟩ := hd
  have hcold := hc.2 msg (by simp [hnet])
  have hsent := hc.1.sent_lt env hcold
  have hkept : ((before ++ after).map (weight S.voters.length (c.apply (.deliver msg env)))).sum ≤
      ((before ++ after).map (weight S.voters.length c)).sum :=
    List.sum_le_sum fun m _ => weight_le (c.term_le_apply (.deliver msg env))
  have hsame : weight S.voters.length
      (Cluster.apply { c with net := before ++ after } (.deliver msg env)) =
        weight S.voters.length (c.apply (.deliver msg env)) := by
    funext m
    rw [weight, weight, Cluster.apply_node_net]
  rw [load, load, hsame, Cluster.apply_net, hnet]
  simp only [List.map_append, List.map_cons, List.sum_append, List.sum_cons] at hkept ⊢
  omega

/-! ## Storms -/

/-- A heartbeat that bounces is answered with one that bounces. -/
theorem exists_bounces (hw : c.Wired S) {m : Message} (hm : m ∈ c.net) (hb : Bounces c m) :
    ∃ c', Delivers c c' ∧ c'.Wired S ∧ ∃ m' ∈ c'.net, Bounces c' m' := by
  obtain ⟨before, after, hnet⟩ := List.append_of_mem hm
  obtain ⟨hbeat, hfrom, hto⟩ := hb
  have hwired : Cluster.Wired S { c with net := before ++ after } := hw
  let env : Env := { now := 0, jitter := 0 }
  have hkeeps : ∀ i, (c.node i).term ≤ m.term →
      ((c.apply (.deliver m env)).node i).term ≤ m.term := by
    intro i hle
    by_cases hi : i = m.to_
    · rw [hi, c.apply_deliver]
      exact step_heartbeat_term env hbeat hto
    · rw [c.apply_node_ne _ hi]
      exact hle
  refine ⟨_, ⟨before, m, after, env, hnet, rfl⟩, hwired.apply _,
    Message.new .heartbeat m.to_ m.from_ m.term, ?_, rfl, ?_, ?_⟩
  · rw [Cluster.apply_net, step_heartbeat_messages env hbeat, if_neg (by omega),
      (hw m.to_).id_eq]
    simp
  · rw [Cluster.apply_node_net]
    exact hkeeps m.to_ hto
  · rw [Cluster.apply_node_net]
    exact hkeeps m.from_ hfrom

/-- Deliveries empty the net, in every order, exactly when nothing bounces. -/
theorem Cluster.Wired.drains_iff_calm (hw : c.Wired S) : Drains c ↔ ∀ m ∈ c.net, ¬ Bounces c m := by
  constructor
  · intro hdrains m hm hb
    refine not_ends_of_next (Q := fun c => c.Wired S ∧ ∃ m ∈ c.net, Bounces c m) ?_ ?_
      ⟨hw, m, hm, hb⟩ hdrains
    · rintro c ⟨-, m, hm, -⟩ hnil
      rw [hnil] at hm
      exact absurd hm List.not_mem_nil
    · rintro c ⟨hw, m, hm, hb⟩
      exact exists_bounces hw hm hb
  · intro hcold
    exact ends_of_load (load S.voters.length) (fun _ _ hc hd => Cold.delivers hc hd)
      (fun _ _ hc hd => Cold.load_lt hc hd) (s := c) ⟨hw, hcold⟩

theorem Cluster.Wired.run (hw : c.Wired S) (es : List Event) : (c.run es).Wired S := by
  induction es generalizing c with
  | nil => exact hw
  | cons e rest ih => exact ih (hw.apply e)

/-- Whatever is in flight in a reachable cluster, deliveries come to an end in every
order exactly when no heartbeat is in flight that neither its sender nor its receiver
has left behind. -/
theorem drains_iff (S : Setup) (es : List Event) (inflight : List Message) :
    Drains { Cluster.run (Cluster.init S) es with net := inflight } ↔
      ∀ m ∈ inflight, ¬ Bounces (Cluster.run (Cluster.init S) es) m := by
  have hw : (Cluster.run (Cluster.init S) es).Wired S :=
    Cluster.Wired.run (fun i => Wired.init S i) es
  have hflight : Cluster.Wired S
      { Cluster.run (Cluster.init S) es with net := inflight } := hw
  exact hflight.drains_iff_calm

set_option maxRecDepth 20000

/-- The heartbeat of a leader with nothing left to send. -/
def beat : Message := { msgType := .heartbeat, from_ := 1, to_ := 2, term := 1, commit := 2 }

theorem not_drains_beat :
    Cluster.Valid trio (Cluster.init trio) (committing ++ [.ready 1]) ∧
      beat ∈ (Cluster.run (Cluster.init trio) (committing ++ [.ready 1])).net ∧
        ¬ Drains { Cluster.run (Cluster.init trio) (committing ++ [.ready 1]) with net := [beat] } := by
  refine ⟨by decide, by decide, fun hdrains => ?_⟩
  have hw : (Cluster.run (Cluster.init trio) (committing ++ [.ready 1])).Wired trio :=
    Cluster.Wired.run (fun i => Wired.init trio i) _
  have hflight : Cluster.Wired trio { Cluster.run (Cluster.init trio)
      (committing ++ [.ready 1]) with net := [beat] } := hw
  have hbounces : Bounces (Cluster.run (Cluster.init trio) (committing ++ [.ready 1])) beat := by
    decide
  exact hflight.drains_iff_calm.mp hdrains beat List.mem_cons_self hbounces

end Raft
end RTDB
