import Packages.Classifier.Selection
import Packages.Parser.Soundness

/-!
# Classified input on the loopback interface

`loopback_recv` takes packets from the loop queue and gives each to `_odp_packet_classifier`, which
enqueues, copies or frees it; from the sign of the returned number alone the caller decides whether
the packet goes to the application. Of the statistics only the handle is modelled whose length is
added: it is read from the place of the array that has the number of the packet in the batch.
-/

namespace Packages.Classifier

open Packages.Parser State Option

/-- The packets, what copying and enqueueing one returns, and the array of the application. -/
structure Env where
 packet : Nat → Packet
 /-- `odp_packet_pool`. -/
 pool : Nat → Nat
 /-- `odp_packet_copy` of a packet to a pool. -/
 copy : Nat → Nat → Option Nat
 /-- `queue_enq` of a packet on a queue. -/
 enq : Nat → Nat → Int
 /-- `odp_packet_len` can follow what the application left in a place of its array. -/
 slot : Nat → Bool

/-- What became of packets: returned to the application, enqueued, freed. -/
structure Effects where
 returned : List Nat
 sent : List (Nat × Nat)
 freed : List Nat
 deriving DecidableEq,Repr

def Effects.append (e f : Effects) : Effects :=
 ⟨e.returned++f.returned,e.sent++f.sent,e.freed++f.freed⟩

def Effects.none : Effects := ⟨[],[],[]⟩

attribute [local simp] Effects.none

/-- The packet as the loop hands it to the classifier: reset, with layer 2 parsed. -/
def Env.received (env : Env) (h : Nat) : Packet :=
 { env.packet h with hdr := parseL2 (env.packet h).hdr.parseReset }

namespace State

variable (st : State) (env : Env)

/-- `queue_enq`; only a packet that was accepted is on the queue. -/
def enqueue (queue h : Nat) (freed : List Nat) : Int × Effects :=
 (env.enq queue h,⟨[],if env.enq queue h < 0 then [] else [(queue,h)],freed⟩)

def packetClassifier (p queueId h : Nat) : Option (Int × Effects) :=
 match st.pktioSelectCos (env.received h) p queueId with
 | none => none
 | some (none,_) => some (-1,.none)
 | some (some cos,_) =>
  match (st.cosTbl cos).pool with
  | none => some (-1,⟨[],[],[h]⟩)
  | some pool =>
   match (st.cosTbl cos).queue with
   | none => some (-1,⟨[],[],[h]⟩)
   | some queue =>
    if env.pool h ≠ pool then
     match env.copy h pool with
     | none => some (-1,.none)
     | some newPkt => some (enqueue env queue newPkt [h])
    else some (enqueue env queue h [])

/-- One dequeued packet: it goes to the application if the classifier returns a negative number. -/
def recvOne (p h : Nat) : Option Effects :=
 match st.packetClassifier env p 0 h with
 | none => none
 | some (ret,e) => some { e with returned := if 0 > ret then [h] else [] }

/-- The loop of `loopback_recv` over the dequeued packets: `i` have been dealt with, `j` returned.
The length is read from `pkts[i]` after the packet was stored in `pkts[j]`. -/
def recvLoop (p : Nat) : Nat → Nat → List Nat → Option Effects
 | _,_,[] => some .none
 | i,j,h::rest =>
  match st.recvOne env p h with
  | none => none
  | some e =>
   if e.returned = [] ∨ i = j ∨ env.slot i
    then (recvLoop p (i+1) (j+e.returned.length) rest).map e.append
   else none

/-- `loopback_recv` of up to `len` packets from the loop queue. -/
def loopbackRecv (p : Nat) (loopq : List Nat) (len : Nat) : Option Effects :=
 if (st.pktio p).clsEnabled 0 then st.recvLoop env p 0 0 (loopq.take len)
 else some ⟨loopq.take len,[],[]⟩

/-- The class of service selected for a received packet. -/
def selected (p h : Nat) : Option Nat :=
 (st.pktioSelectCos (env.received h) p 0).bind Prod.fst

end State

variable {st : State} {R : RuleSet} {env : Env} {p : Nat} {pkt : Packet}

-- The selection returns

section

variable (h : Tables st R) (hacyclic : Chain.Acyclic R.linked)

include h hacyclic

lemma Tables.exists_scanPmr (pkt : Packet)
 (cls : Cls) (left i : Nat) : ∃ r, st.scanPmr pkt cls left i = some r := by
 induction left generalizing i with
 | zero => exact ⟨_,rfl⟩
 | succ left ih =>
  obtain ⟨r,hr⟩ := isSome_iff_exists.mp (h.isSome_matchPmrCos hacyclic pkt (cls.cos i) (cls.pmr i))
  rw [scanPmr,hr]
  cases r with
  | none => exact ih (i+1)
  | some c => exact ⟨_,rfl⟩

lemma Tables.exists_selectCosParsed (pkt : Packet) (p queueId : Nat) :
 ∃ r, st.selectCosParsed pkt p queueId = some r := by
 obtain ⟨r,hr⟩ := h.exists_scanPmr hacyclic pkt ((st.pktio p).cls globalClsId)
  ((st.pktio p).cls globalClsId).numPmr 0
 obtain ⟨r',hr'⟩ := h.exists_scanPmr hacyclic pkt ((st.pktio p).cls queueId)
  ((st.pktio p).cls queueId).numPmr 0
 rw [selectCosParsed]
 split
 · exact ⟨_,rfl⟩
 · rw [hr]
   cases r with
   | some c => exact ⟨_,rfl⟩
   | none =>
    rw [hr']
    cases r' with
    | some c => exact ⟨_,rfl⟩
    | none =>
     dsimp only
     split <;> exact ⟨_,rfl⟩

/-- The selection returns for every packet and every configuration without a cyclic cascade. -/
lemma Tables.exists_pktioSelectCos (pkt : Packet) (hmax : pkt.hdr.frameLen+2048 < 2^32)
 (p queueId : Nat) : ∃ r, st.pktioSelectCos pkt p queueId = some r := by
 rw [pktioSelectCos]
 split
 · obtain ⟨r,hr⟩ := h.exists_selectCosParsed hacyclic pkt p queueId
   exact ⟨_,by rw [hr]; rfl⟩
 · obtain ⟨⟨ret,hdr⟩,hparse⟩ := exists_parseCommon pkt.data pkt.hdr hmax
   obtain ⟨r,hr⟩ := h.exists_selectCosParsed hacyclic { pkt with hdr := hdr } p queueId
   rw [hparse]
   dsimp only
   rw [hr]
   exact ⟨_,rfl⟩

lemma Tables.exists_recvOne {g : Nat}
 (hmax : (env.packet g).hdr.frameLen+2048 < 2^32) : ∃ e, st.recvOne env p g = some e := by
 obtain ⟨⟨cos,pkt⟩,hselect⟩ := h.exists_pktioSelectCos hacyclic (env.received g) hmax p 0
 have hclassifier : ∃ r, st.packetClassifier env p 0 g = some r := by
  rw [packetClassifier,hselect]
  cases cos with
  | none => exact ⟨_,rfl⟩
  | some c =>
   dsimp only
   split
   · exact ⟨_,rfl⟩
   split
   · exact ⟨_,rfl⟩
   split
   · split <;> exact ⟨_,rfl⟩
   · exact ⟨_,rfl⟩
 obtain ⟨r,hr⟩ := hclassifier
 rw [recvOne,hr]
 exact ⟨_,rfl⟩

end

-- What became of one packet

/-- The effects on one packet. -/
def Effects.on (e : Effects) (g : Nat) : Effects :=
 ⟨e.returned.filter (· = g),e.sent.filter (·.2 = g),e.freed.filter (· = g)⟩

lemma Effects.on_append (e f : Effects) (g : Nat) :
 (e.append f).on g = (e.on g).append (f.on g) := by
 simp [Effects.on,Effects.append]

@[simp] lemma Effects.append_none (e : Effects) : e.append .none = e := by
 simp [Effects.append]

@[simp] lemma Effects.none_append (e : Effects) : Effects.none.append e = e := rfl

/-- The packet itself and what `odp_packet_copy` makes of it. -/
def Env.Stems (env : Env) (h g : Nat) : Prop := g = h ∨ ∃ pool, env.copy h pool = some g

/-- Copies are new packets. -/
structure Env.Fresh (env : Env) (batch : List Nat) : Prop where
 new : ∀ h ∈ batch, ∀ pool x, env.copy h pool = some x → x ∉ batch
 inj : ∀ h ∈ batch, ∀ h' ∈ batch, ∀ pool pool' x,
  env.copy h pool = some x → env.copy h' pool' = some x → h = h'

variable {h : Nat}

lemma Env.Fresh.eq_of_stems {batch : List Nat} (hfresh : env.Fresh batch) {h' g : Nat}
 (hh : h ∈ batch) (hh' : h' ∈ batch) (hg : env.Stems h g) (hg' : env.Stems h' g) : h = h' := by
 obtain rfl | ⟨pool,hcopy⟩ := hg
 · obtain rfl | ⟨pool',hcopy'⟩ := hg'
   · rfl
   · exact absurd hh (hfresh.new h' hh' pool' g hcopy')
 · obtain rfl | ⟨pool',hcopy'⟩ := hg'
   · exact absurd hh' (hfresh.new h hh pool g hcopy)
   · exact hfresh.inj h hh h' hh' pool pool' g hcopy hcopy'

/-- The class of service selected for a packet has a pool and a queue, and a copy of the packet is
accepted by the queue. -/
def Accountable (st : State) (env : Env) (p h : Nat) : Prop :=
 ∀ c, st.selected env p h = some c → ∃ pool q, (st.cosTbl c).pool = some pool ∧
  (st.cosTbl c).queue = some q ∧
  (env.pool h ≠ pool → ∀ x, env.copy h pool = some x → 0 ≤ env.enq q x)

/-- The queue of the class of service selected for a packet accepts it, or its copy. -/
def Consumed (st : State) (env : Env) (p h : Nat) : Prop :=
 ∃ c pool q x, st.selected env p h = some c ∧ (st.cosTbl c).pool = some pool ∧
  (st.cosTbl c).queue = some q ∧
  (if env.pool h ≠ pool then env.copy h pool else some h) = some x ∧ 0 ≤ env.enq q x

/-- What one round does: the packet is untouched, is enqueued, a copy is enqueued, or it is freed
and returned. -/
inductive Round (st : State) (env : Env) (p h : Nat) : Effects → Prop
 | kept (hok : Accountable st env p h) (hnot : ¬ Consumed st env p h) : Round st env p h ⟨[h],[],[]⟩
 | enqueued (c q : Nat) (hc : st.selected env p h = some c) (hq : (st.cosTbl c).queue = some q)
  (hok : Accountable st env p h) (hin : Consumed st env p h) : Round st env p h ⟨[],[(q,h)],[]⟩
 | copied (c q pool x : Nat) (hc : st.selected env p h = some c)
  (hq : (st.cosTbl c).queue = some q) (hpool : (st.cosTbl c).pool = some pool)
  (hcopy : env.copy h pool = some x) (hok : Accountable st env p h) (hin : Consumed st env p h) :
  Round st env p h ⟨[],[(q,x)],[h]⟩
 | twice (hbad : ¬ Accountable st env p h) (hnot : ¬ Consumed st env p h) :
  Round st env p h ⟨[h],[],[h]⟩

variable {e : Effects}

lemma round_of_recvOne (he : st.recvOne env p h = some e) : Round st env p h e := by
 rw [recvOne,packetClassifier] at he
 cases hselect : st.pktioSelectCos (env.received h) p 0 with
 | none =>
  rw [hselect] at he
  cases he
 | some r =>
  obtain ⟨cos,pkt⟩ := r
  rw [hselect] at he
  cases cos with
  | none =>
   cases he
   exact .kept (by simp [Accountable,selected,hselect]) (by simp [Consumed,selected,hselect])
  | some c =>
   have hc : st.selected env p h = some c := by rw [selected,hselect]; rfl
   dsimp only at he
   cases hpool : (st.cosTbl c).pool with
   | none =>
    rw [hpool] at he
    cases he
    exact .twice (by simp [Accountable,hc,hpool]) (by simp [Consumed,hc,hpool])
   | some pool =>
    cases hq : (st.cosTbl c).queue with
    | none =>
     rw [hpool,hq] at he
     cases he
     exact .twice (by simp [Accountable,hc,hq]) (by simp [Consumed,hc,hq])
    | some q =>
     rw [hpool,hq] at he
     dsimp only [enqueue] at he
     have hok : Accountable st env p h ↔
      (env.pool h ≠ pool → ∀ x, env.copy h pool = some x → 0 ≤ env.enq q x) := by
      simp [Accountable,hc,hpool,hq]
     have hin : Consumed st env p h ↔
      ∃ x, (if env.pool h ≠ pool then env.copy h pool else some h) = some x ∧ 0 ≤ env.enq q x := by
      simp [Consumed,hc,hpool,hq]
     by_cases hne : env.pool h ≠ pool
     · rw [if_pos hne] at he hin
       cases hcopy : env.copy h pool with
       | none =>
        rw [hcopy] at he
        cases he
        exact .kept (by simp [hok,hcopy]) (by simp [hin,hcopy])
       | some x =>
        rw [hcopy] at he
        cases he
        by_cases henq : env.enq q x < 0
        · rw [if_pos henq,if_pos henq]
          exact .twice (by simpa [hok,hne,hcopy] using henq) (by simpa [hin,hcopy] using henq)
        · rw [if_neg henq,if_neg henq]
          exact .copied c q pool x hc hq hpool hcopy (by simpa [hok,hne,hcopy] using henq)
           (by simpa [hin,hcopy] using henq)
     · rw [if_neg hne] at he hin
       cases he
       have hok := hok.mpr fun h => absurd h hne
       by_cases henq : env.enq q h < 0
       · rw [if_pos henq,if_pos henq]
         exact .kept hok (by simpa [hin] using henq)
       · rw [if_neg henq,if_neg henq]
         exact .enqueued c q hc hq hok (by simpa [hin] using henq)

lemma Round.returned_eq (hround : Round st env p h e) :
 Consumed st env p h ∧ e.returned = [] ∨ ¬ Consumed st env p h ∧ e.returned = [h] := by
 cases hround with
 | kept hok hnot | twice hok hnot => exact .inr ⟨hnot,rfl⟩
 | enqueued c q hc hq hok hin | copied c q pool x hc hq hpool hcopy hok hin => exact .inl ⟨hin,rfl⟩

lemma Round.on_eq_none {g : Nat} (hround : Round st env p h e)
 (hg : ¬ env.Stems h g) : e.on g = .none := by
 have hne : h ≠ g := fun heq => hg (.inl heq.symm)
 cases hround with
 | kept | enqueued | twice => simp [Effects.on,hne]
 | copied c q pool x hc hq hpool hcopy =>
  have hx : x ≠ g := fun heq => hg (.inr ⟨pool,heq ▸ hcopy⟩)
  simp [Effects.on,hne,hx]

-- The loop

lemma recvLoop_cons {i j : Nat} {rest : List Nat} : st.recvLoop env p i j (h::rest) = some e ↔
 ∃ own, st.recvOne env p h = some own ∧ (own.returned = [] ∨ i = j ∨ env.slot i = true) ∧
  ∃ f, st.recvLoop env p (i+1) (j+own.returned.length) rest = some f ∧ own.append f = e := by
 rw [recvLoop]
 cases st.recvOne env p h with
 | none => simp
 | some own =>
  dsimp only
  split_ifs with hread
  · simp [hread]
  · simp [hread]

/-- The loop returns exactly when it follows no place of the array that it has not written to. -/
lemma exists_recvLoop {i j : Nat} {batch : List Nat}
 (hone : ∀ h ∈ batch, ∃ e, st.recvOne env p h = some e)
 (hj : j ≤ i) : (∃ e, st.recvLoop env p i j batch = some e) ↔
  ∀ before h after, batch = before++h::after → ¬ Consumed st env p h →
   (j < i ∨ ∃ x ∈ before, Consumed st env p x) → env.slot (i+before.length) = true := by
 induction batch generalizing i j with
 | nil => simp [recvLoop]
 | cons a rest ih =>
  obtain ⟨⟨own,hown⟩,hrest⟩ := List.forall_mem_cons.mp hone
  have hsplit : (∃ e, st.recvLoop env p i j (a::rest) = some e) ↔
   (own.returned = [] ∨ i = j ∨ env.slot i = true) ∧
    ∃ f, st.recvLoop env p (i+1) (j+own.returned.length) rest = some f := by
   simp [recvLoop_cons,hown]
  have hlist :
   ∀ P : List Nat → Nat → Prop, (∀ before h after, a::rest = before++h::after → P before h) ↔
   P [] a ∧ ∀ before h after, rest = before++h::after → P (a::before) h := by
   refine fun P => ⟨fun hP => ⟨hP [] a rest rfl,fun before h after heq => hP (a::before) h after
    (by rw [heq]; rfl)⟩,fun hP before h after heq => ?_⟩
   cases before with
   | nil =>
    cases heq
    exact hP.1
   | cons b before =>
    cases heq
    exact hP.2 before h after rfl
  rw [hsplit,hlist fun before h => ¬ Consumed st env p h →
   (j < i ∨ ∃ x ∈ before, Consumed st env p x) → env.slot (i+before.length) = true]
  obtain ⟨hin,hret⟩ | ⟨hnot,hret⟩ := (round_of_recvOne hown).returned_eq
  · rw [ih hrest (by simp [hret]; omega)]
    simp [hret,hin,Nat.lt_succ_of_le hj,Nat.add_assoc,Nat.add_comm 1]
  · rw [ih hrest (by simp [hret]; omega)]
    have hne : (i = j ∨ env.slot i = true) ↔ (j < i → env.slot i = true) := by
     obtain rfl | hlt := hj.eq_or_lt
     · simp
     · simp [hlt,hlt.ne']
    simp only [hret,hnot,hne,List.length_cons,List.length_nil,List.cons_ne_nil,List.mem_cons,
     exists_eq_or_imp,List.not_mem_nil,false_and,exists_false,or_false,false_or,not_false_eq_true,
     forall_true_left,Nat.add_lt_add_iff_right,Nat.add_assoc,Nat.add_zero,Nat.add_comm 1]

lemma recvLoop_on_eq_none {batch : List Nat} {i j g : Nat}
 (he : st.recvLoop env p i j batch = some e) (hg : ∀ h ∈ batch, ¬ env.Stems h g) :
 e.on g = .none := by
 induction batch generalizing e i j with
 | nil =>
  cases he
  rfl
 | cons h rest ih =>
  obtain ⟨own,hown,-,f,hf,rfl⟩ := recvLoop_cons.mp he
  rw [Effects.on_append,(round_of_recvOne hown).on_eq_none (hg h List.mem_cons_self),
   ih hf fun h' hh' => hg h' (List.mem_cons_of_mem h hh')]
  rfl

/-- The whole batch does to a packet and its copies what the round of the packet does. -/
lemma recvLoop_on {batch : List Nat} {i j : Nat} (he : st.recvLoop env p i j batch = some e)
 (hnodup : batch.Nodup) (hfresh : env.Fresh batch) (hh : h ∈ batch) :
 ∃ own, Round st env p h own ∧ ∀ g, env.Stems h g → e.on g = own.on g := by
 have hdisjoint : ∀ a ∈ batch, ∀ b ∈ batch, a ≠ b → ∀ g, env.Stems a g → ¬ env.Stems b g :=
  fun a ha b hb hab g hga hgb => hab (hfresh.eq_of_stems ha hb hga hgb)
 clear hfresh
 induction batch generalizing e i j with
 | nil => cases hh
 | cons a rest ih =>
  obtain ⟨ha,hrest⟩ := List.nodup_cons.mp hnodup
  obtain ⟨own,hown,-,f,hf,rfl⟩ := recvLoop_cons.mp he
  have hround := round_of_recvOne hown
  obtain rfl | hmem := List.mem_cons.mp hh
  · refine ⟨own,hround,fun g hg => ?_⟩
    have hfg : f.on g = .none := recvLoop_on_eq_none hf fun b hb =>
     hdisjoint h List.mem_cons_self b (List.mem_cons_of_mem h hb) (fun heq => ha (heq ▸ hb)) g hg
    rw [Effects.on_append,hfg,Effects.append_none]
  · obtain ⟨own',hround',hown'⟩ := ih hf hrest hmem fun b hb c hc =>
     hdisjoint b (List.mem_cons_of_mem a hb) c (List.mem_cons_of_mem a hc)
    refine ⟨own',hround',fun g hg => ?_⟩
    have hag : own.on g = .none := hround.on_eq_none
     (hdisjoint h hh a List.mem_cons_self (fun heq => ha (heq ▸ hmem)) g hg)
    rw [Effects.on_append,hag,Effects.none_append,hown' g hg]

-- Ownership

/-- A dequeued packet is in exactly one place: with the application, on the queue of the class of
service selected for it, itself or as a copy in place of the freed original, or freed. -/
inductive Ended (st : State) (env : Env) (p : Nat) (e : Effects) (h : Nat) : Prop
 | returned (hself : e.on h = ⟨[h],[],[]⟩)
  (hcopies : ∀ pool x, env.copy h pool = some x → e.on x = .none)
 | queued (c q : Nat) (hc : st.selected env p h = some c) (hq : (st.cosTbl c).queue = some q)
  (hself : e.on h = ⟨[],[(q,h)],[]⟩)
  (hcopies : ∀ pool x, env.copy h pool = some x → e.on x = .none)
 | copied (c q pool x : Nat) (hc : st.selected env p h = some c) (hq : (st.cosTbl c).queue = some q)
  (hpool : (st.cosTbl c).pool = some pool) (hcopy : env.copy h pool = some x)
  (hself : e.on h = ⟨[],[],[h]⟩) (hx : e.on x = ⟨[],[(q,x)],[]⟩)
  (hcopies : ∀ pool' y, env.copy h pool' = some y → y ≠ x → e.on y = .none)
 | freed (hself : e.on h = ⟨[],[],[h]⟩)
  (hcopies : ∀ pool x, env.copy h pool = some x → e.on x = .none)

lemma not_ended_of_returned_freed (hreturned : h ∈ e.returned)
 (hfreed : h ∈ e.freed) : ¬ Ended st env p e h := by
 have hret : h ∈ (e.on h).returned := List.mem_filter.mpr ⟨hreturned,by simp⟩
 have hfree : h ∈ (e.on h).freed := List.mem_filter.mpr ⟨hfreed,by simp⟩
 intro hended
 cases hended with
 | returned hself | queued c q hc hq hself => simp [hself] at hfree
 | copied c q pool x hc hq hpool hcopy hself | freed hself => simp [hself] at hret

lemma Round.ended_iff {own : Effects} (hround : Round st env p h own)
 (hon : ∀ g, env.Stems h g → e.on g = own.on g)
 (hnew : ∀ pool x, env.copy h pool = some x → x ≠ h) : Ended st env p e h ↔
  Accountable st env p h := by
 have hself := hon h (.inl rfl)
 have hcopies : ∀ pool x, env.copy h pool = some x → e.on x = own.on x :=
  fun pool x hcopy => hon x (.inr ⟨pool,hcopy⟩)
 cases hround with
 | kept hok =>
  refine iff_of_true (.returned (by simpa [Effects.on] using hself) fun pool x hcopy => ?_) hok
  rw [hcopies pool x hcopy]
  simp [Effects.on,(hnew pool x hcopy).symm]
 | enqueued c q hc hq hok =>
  refine iff_of_true (.queued c q hc hq (by simpa [Effects.on] using hself) fun pool x hcopy => ?_)
   hok
  rw [hcopies pool x hcopy]
  simp [Effects.on,(hnew pool x hcopy).symm]
 | copied c q pool x hc hq hpool hcopy hok =>
  have hne := hnew pool x hcopy
  refine iff_of_true (.copied c q pool x hc hq hpool hcopy
   (by simpa [Effects.on,hne] using hself) ?_ ?_) hok
  · rw [hcopies pool x hcopy]
    simp [Effects.on,hne.symm]
  · intro pool' y hcopy' hy
    rw [hcopies pool' y hcopy']
    simp [Effects.on,hy.symm,(hnew pool' y hcopy').symm]
 | twice hbad =>
  have hboth : e.on h = ⟨[h],[],[h]⟩ := by simpa [Effects.on] using hself
  refine iff_of_false (fun hended => ?_) hbad
  cases hended with
  | returned hself | queued c q hc hq hself | copied c q pool x hc hq hpool hcopy hself
   | freed hself =>
   simp [hself] at hboth

lemma ended_of_returned {batch : List Nat} (hnodup : batch.Nodup) (hfresh : env.Fresh batch)
 (hh : h ∈ batch) : Ended st env p ⟨batch,[],[]⟩ h := by
 refine .returned ?_ fun pool x hcopy => ?_
 · have hcount : batch.filter (· == h) = [h] := by
    rw [List.filter_beq,List.count_eq_one_of_mem hnodup hh]
    rfl
   simpa [Effects.on,beq_eq_decide] using hcount
 · have hx : x ∉ batch := hfresh.new h hh pool x hcopy
   have hnone : batch.filter (· = x) = [] :=
    List.filter_eq_nil_iff.mpr fun a ha => by simpa using fun heq : a = x => hx (heq ▸ ha)
   simp [Effects.on,hnone]

/-- Behind a packet that its queue took no packet is returned, or the place of the array with the
number of the returned packet has the handle of a packet. -/
def Readable (st : State) (env : Env) (p : Nat) (batch : List Nat) : Prop :=
 ∀ before h after, batch = before++h::after → ¬ Consumed st env p h →
  (∃ x ∈ before, Consumed st env p x) → env.slot before.length = true

/-- Every packet is copied to pool 1 and accepted by its queue. -/
def copyingEnv : Env where
 packet _ := ⟨newHdr 64,fun _ => 0⟩
 pool _ := 0
 copy h _ := some (h+100)
 enq _ _ := 0
 slot _ := false

lemma fresh_copyingEnv : copyingEnv.Fresh [7,8] := by
 have hcopy : ∀ h pool x, copyingEnv.copy h pool = some x → x = h+100 :=
  fun h pool x heq => (some.inj heq).symm
 refine ⟨fun h hh pool x heq hx => ?_,fun h _ h' _ pool pool' x heq heq' => ?_⟩
 · have := hcopy h pool x heq
   simp only [List.mem_cons,List.not_mem_nil,or_false] at hh hx
   omega
 · have := hcopy h pool x heq
   have := hcopy h' pool' x heq'
   omega

/-- A default class of service with queue 3 and pool 1. -/
def poolCalls : List Call := [.cosCreate (some 3) (some 1),.pktioDefaultCosSet 0 0]

lemma acyclic_poolCalls : Chain.Acyclic (ruleSet 0 poolCalls).linked := by
 refine .of_lt id fun a b hab => ?_
 cases hab

lemma selected_poolCalls (h : Nat) :
 ((init fun _ => 1).configure poolCalls).selected copyingEnv 0 h = some 0 := by
 show ((init fun _ => 1).configure poolCalls).selected copyingEnv 0 0 = some 0
 decide +kernel

end Packages.Classifier
