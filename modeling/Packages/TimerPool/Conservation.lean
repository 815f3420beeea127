import Packages.Lib.Custody
import Packages.TimerPool.Slots

/-!
# Timeout events are conserved

One book follows the events: each is with the application, in one timer, with the notification
thread or on one queue. The other follows the successful sets: each is still stored, was given back
to a caller once, is being posted, or was posted once to the timer's queue.
-/

namespace Packages.TimerPool

open Function Option List

namespace Notifier

/-- The event the notification thread has grabbed and not yet posted. -/
def event : Notifier → Option Event
 | .post _ _ _ ev _ _ _ => some ev
 | _ => none

def serial : Notifier → Option Nat
 | .post _ _ _ _ _ n _ => some n
 | _ => none

@[simp] lemma event_markFreed (n : Notifier) (idx : Nat) : (n.markFreed idx).event = n.event := by
 cases n <;> rfl

@[simp] lemma serial_markFreed (n : Notifier) (idx : Nat) :
 (n.markFreed idx).serial = n.serial := by
 cases n <;> rfl

end Notifier

/-- The places an event can be. -/
inductive Place where
 | application
 | timer (idx : Nat)
 | transit
 | queue (q : QueueHdl)
 deriving DecidableEq, Repr

/-- How often the place holds the event. -/
def eventAt (s : State) : Place → Event → Nat
 | .application, e => if s.owned e then 1 else 0
 | .timer i, e => (s.tp.tickBuf i).tmoBuf.toList.count e
 | .transit, e => s.notifier.event.toList.count e
 | .queue q, e => (s.queue q).count e

/-- What can have become of a hand-over. -/
inductive Fate where
 | unissued
 | stored (idx : Nat)
 | transit
 | returned
 | delivered
 deriving DecidableEq, Repr

/-- How often the hand-over has met the fate. -/
def serialAt (s : State) : Fate → Nat → Nat
 | .unissued, n => if s.ledger.issued ≤ n then 1 else 0
 | .stored i, n => (s.ledger.slot i).toList.count n
 | .transit, n => s.notifier.serial.toList.count n
 | .returned, n => s.ledger.returned.count n
 | .delivered, n => (s.ledger.delivered.map Delivery.serial).count n

attribute [local simp] eventAt serialAt State.init State.takenOut Pool.setTickBuf Ledger.giveBack
 Pool.setTimer Pool.allocated
 Ledger.grab

-- The events

section Events

variable {s s' : State} {idx : Nat}

section

variable (h : Custody (eventAt s))

include h

lemma custody_event_congr (ho : s'.owned = s.owned)
 (ht : ∀ i, (s'.tp.tickBuf i).tmoBuf = (s.tp.tickBuf i).tmoBuf)
 (hn : s'.notifier.event = s.notifier.event) (hq : s'.queue = s.queue) :
 Custody (eventAt s') := by
 have heq : eventAt s' = eventAt s := by
  funext p e
  cases p <;> simp [ho,ht,hn,hq]
 exact heq ▸ h

lemma owned_eq_false {p : Place} {e : Event} (hp : p ≠ .application)
 (he : eventAt s p e ≠ 0) : s.owned e = false := by
 have h0 := h.eq_zero he hp.symm
 simpa using h0

lemma custody_event_takeOut (ho : s'.owned = giveOwned s.owned (s.tp.tickBuf idx).tmoBuf)
 (ht : ∀ i, (s'.tp.tickBuf i).tmoBuf = if i = idx then none else (s.tp.tickBuf i).tmoBuf)
 (hn : s'.notifier.event = s.notifier.event) (hq : s'.queue = s.queue) :
 Custody (eventAt s') := by
 refine h.move (l := (s.tp.tickBuf idx).tmoBuf.toList) (a := .timer idx) (b := .application) ?_
 intro p e
 cases p with
 | application =>
  cases hb : (s.tp.tickBuf idx).tmoBuf with
  | none => simp [ho,hb,giveOwned]
  | some b =>
   by_cases hbe : b = e
   · subst hbe
     have hf := owned_eq_false h (p := .timer idx) (e := b) (by simp) (by simp [hb])
     simp [ho,hb,giveOwned,hf]
   · simp [ho,hb,giveOwned,hbe]
 | timer i =>
  by_cases hi : i = idx <;> simp [ht,hi]
 | transit => simp [hn]
 | queue q => simp [hq]

lemma custody_event_putIn {ev : Event} (hev : s.owned ev = true)
 (hempty : (s.tp.tickBuf idx).tmoBuf = none) (ho : s'.owned = update s.owned ev false)
 (ht : ∀ i, (s'.tp.tickBuf i).tmoBuf = if i = idx then some ev else (s.tp.tickBuf i).tmoBuf)
 (hn : s'.notifier.event = s.notifier.event) (hq : s'.queue = s.queue) :
 Custody (eventAt s') := by
 refine h.move (l := [ev]) (a := .application) (b := .timer idx) ?_
 intro p e
 cases p with
 | application =>
  by_cases he : e = ev
  · subst he
    simp [ho,hev]
  · simp [ho,he,Ne.symm he]
 | timer i =>
  by_cases hi : i = idx
  · subst hi
    simp [ht,hempty]
  · simp [ht,hi]
 | transit => simp [hn]
 | queue q => simp [hq]

lemma custody_event_grab (ho : s'.owned = s.owned)
 (ht : ∀ i, (s'.tp.tickBuf i).tmoBuf = if i = idx then none else (s.tp.tickBuf i).tmoBuf)
 (hn : s.notifier.event = none) (hn' : s'.notifier.event = (s.tp.tickBuf idx).tmoBuf)
 (hq : s'.queue = s.queue) : Custody (eventAt s') := by
 refine h.move (l := (s.tp.tickBuf idx).tmoBuf.toList) (a := .timer idx) (b := .transit) ?_
 intro p e
 cases p with
 | application => simp [ho]
 | timer i =>
  by_cases hi : i = idx <;> simp [ht,hi]
 | transit => simp [hn,hn']
 | queue q => simp [hq]

lemma custody_event_post {ev : Event} {q : QueueHdl}
 (ho : s'.owned = s.owned) (ht : ∀ i, (s'.tp.tickBuf i).tmoBuf = (s.tp.tickBuf i).tmoBuf)
 (hn : s.notifier.event = some ev) (hn' : s'.notifier.event = none)
 (hq : s'.queue = update s.queue q (s.queue q++[ev])) : Custody (eventAt s') := by
 refine h.move (l := [ev]) (a := .transit) (b := .queue q) ?_
 intro p e
 cases p with
 | application => simp [ho]
 | timer i => simp [ht]
 | transit => simp [hn,hn']
 | queue r =>
  by_cases hr : r = q
  · subst hr
    simp [hq]
  · simp [hq,hr]

lemma custody_event_receive {ev : Event} {evs : List Event}
 {q : QueueHdl} (hs : s.queue q = ev::evs) (ho : s'.owned = update s.owned ev true)
 (ht : ∀ i, (s'.tp.tickBuf i).tmoBuf = (s.tp.tickBuf i).tmoBuf)
 (hn : s'.notifier.event = s.notifier.event) (hq : s'.queue = update s.queue q evs) :
 Custody (eventAt s') := by
 refine h.move (l := [ev]) (a := .queue q) (b := .application) ?_
 intro p e
 cases p with
 | application =>
  by_cases he : e = ev
  · subst he
    have hf := owned_eq_false h (p := .queue q) (e := e) (by simp) (by simp [hs])
    simp [ho,hf]
  · simp [ho,he,Ne.symm he]
 | timer i => simp [ht]
 | transit => simp [hn]
 | queue r =>
  by_cases hr : r = q
  · subst hr
    simp [hq,hs,count_cons]
  · simp [hq,hr]

end

end Events

-- The hand-overs

section Serials

variable {s s' : State} {idx : Nat}

section

variable (h : Custody (serialAt s))

include h

lemma custody_serial_congr (hl : s'.ledger = s.ledger)
 (hn : s'.notifier.serial = s.notifier.serial) : Custody (serialAt s') := by
 have heq : serialAt s' = serialAt s := by
  funext f n
  cases f <;> simp [hl,hn]
 exact heq ▸ h

lemma custody_serial_giveBack (hl : s'.ledger = s.ledger.giveBack idx)
 (hn : s'.notifier.serial = s.notifier.serial) : Custody (serialAt s') := by
 refine h.move (l := (s.ledger.slot idx).toList) (a := .stored idx) (b := .returned) ?_
 intro f n
 cases f with
 | unissued | delivered => simp [hl]
 | stored i =>
  by_cases hi : i = idx <;> simp [hl,hi]
 | transit => simp [hn]
 | returned => simp [hl,add_comm]

lemma custody_serial_issue {e : Event} {q : QueueHdl}
 (hempty : s.ledger.slot idx = none) (hl : s'.ledger = { s.ledger with
  issued := s.ledger.issued+1
  slot := update s.ledger.slot idx (some s.ledger.issued)
  event := update s.ledger.event s.ledger.issued e
  dest := update s.ledger.dest s.ledger.issued q })
 (hn : s'.notifier.serial = s.notifier.serial) : Custody (serialAt s') := by
 refine h.move (l := [s.ledger.issued]) (a := .unissued) (b := .stored idx) ?_
 intro f n
 cases f with
 | unissued =>
  simp only [serialAt,hl,count_singleton,beq_iff_eq,reduceCtorEq,↓reduceIte]
  split_ifs <;> omega
 | stored i =>
  by_cases hi : i = idx
  · subst hi
    simp [hl,hempty]
  · simp [hl,hi]
 | transit => simp [hn]
 | returned | delivered => simp [hl]

lemma custody_serial_grab (hl : s'.ledger = s.ledger.grab idx)
 (hn : s.notifier.serial = none) (hn' : s'.notifier.serial = s.ledger.slot idx) :
 Custody (serialAt s') := by
 refine h.move (l := (s.ledger.slot idx).toList) (a := .stored idx) (b := .transit) ?_
 intro f n
 cases f with
 | unissued | returned | delivered => simp [hl]
 | stored i =>
  by_cases hi : i = idx <;> simp [hl,hi]
 | transit => simp [hn,hn']

lemma custody_serial_deliver {d : Delivery}
 (hl : s'.ledger = s.ledger.deliver d) (hn : s.notifier.serial = some d.serial)
 (hn' : s'.notifier.serial = none) : Custody (serialAt s') := by
 refine h.move (l := [d.serial]) (a := .transit) (b := .delivered) ?_
 intro f n
 cases f with
 | unissued | stored i | returned => simp [hl,Ledger.deliver]
 | transit => simp [hn,hn']
 | delivered => simp [hl,Ledger.deliver,count_cons]

lemma serial_lt_issued {f : Fate} {n : Nat} (hf : f ≠ .unissued)
 (hn : serialAt s f n ≠ 0) : n < s.ledger.issued := by
 have h0 := h.eq_zero hn hf.symm
 simpa using h0

end

end Serials

-- The slots of the pool

/-- The free list of the pool is intact, and an event is only ever in a timer that callers
hold: what `timer_alloc` takes off the free list holds none. -/
structure SlotInv (s : State) : Prop where
 chain : ∃ fl, Linked id (fun i => (s.tp.timers i).queue) s.tp.firstFree fl s.tp.numTimers ∧
  fl.Nodup ∧ fl.length+s.tp.numAlloc = s.tp.numTimers ∧
  ∀ i ∈ fl, i < s.tp.numTimers ∧ s.live i = false ∧ ∀ t, s.freeing t ≠ some i
 dead : ∀ i, s.live i = false → (s.tp.tickBuf i).tmoBuf = none
 liveLt : ∀ i, s.live i = true → i < s.tp.numTimers
 freeingDead : ∀ t i, s.freeing t = some i → i < s.tp.numTimers ∧ s.live i = false
 freeingInj : ∀ t u i, s.freeing t = some i → s.freeing u = some i → t = u

/-- The events of the hand-overs are where the ledger says, on their way to the queue of
their timer. -/
structure BookInv (s : State) : Prop where
 stored : ∀ i, (s.tp.tickBuf i).tmoBuf = (s.ledger.slot i).map s.ledger.event
 transit : s.notifier.event = s.notifier.serial.map s.ledger.event
 storedDest : ∀ i n, s.ledger.slot i = some n → s.ledger.dest n = (s.tp.timers i).queue
 transitDest : ∀ tick highWm i ev expTck n, s.notifier = .post tick highWm i ev expTck n false →
  s.live i = true ∧ s.ledger.dest n = (s.tp.timers i).queue
 posted : ∀ d ∈ s.ledger.delivered, d.event = s.ledger.event d.serial ∧
  (d.freed = false → d.queue = s.ledger.dest d.serial)

structure Inv (s : State) : Prop where
 slots : SlotInv s
 events : Custody (eventAt s)
 serials : Custody (serialAt s)
 books : BookInv s

variable {s : State}

lemma Inv.slot_none (h : Inv s) {i : Nat} (hi : (s.tp.tickBuf i).tmoBuf = none) :
 s.ledger.slot i = none := by
 have := h.books.stored i
 rw [hi] at this
 simpa using this.symm

lemma FreeList.slotInv {fl : List Nat} (h : FreeList s fl)
 (hdead : ∀ i, s.live i = false → (s.tp.tickBuf i).tmoBuf = none) : SlotInv s :=
 ⟨⟨fl,h.linked,h.nodup,h.count,fun i hi => (h.mem i).mp hi⟩,hdead,h.liveLt,h.freeingDead,
  h.freeingInj⟩

lemma init_inv (tpIdx : Nat) (param : PoolParam) (tmoHdr : Event → TimeoutHdr) :
 Inv (.init tpIdx param tmoHdr) where
 slots := (FreeList.init ..).slotInv fun _ _ => rfl
 events := ⟨fun _ => .application,fun p e => by
  cases p <;> simp [odpTimerPoolNew,Notifier.event]⟩
 serials := ⟨fun _ => .unissued,fun f n => by
  cases f <;> simp [Notifier.serial]⟩
 books := {
  stored := fun i => rfl
  transit := rfl
  storedDest := fun i n h => by simp at h
  transitDest := fun _ _ _ _ _ _ h => by simp at h
  posted := fun d h => by simp at h }

section Steps

variable {s s' : State} {v : ResetVariant} {isTimeout : Event → Bool}

lemma alloc_inv (h : Inv s) {fl : List Nat} (hfl : FreeList s fl) (q : QueueHdl) (up : Nat)
 (hlt : s.tp.numAlloc < s.tp.numTimers) :
 Inv { s with
  tp := s.tp.allocated q up
  live := update s.live s.tp.firstFree true } := by
 obtain ⟨fl',hfl'⟩ := hfl.alloc q up hlt
 have hjdead := hfl.firstFree_dead hlt
 have hjnone := h.slots.dead _ hjdead
 have hjslot := h.slot_none hjnone
 have hbuf : ∀ i, ((s.tp.allocated q up).tickBuf i).tmoBuf = (s.tp.tickBuf i).tmoBuf := by
  intro i
  by_cases hi : i = s.tp.firstFree
  · simp [hi,hjnone]
  · simp [hi]
 refine ⟨hfl'.slotInv fun i hi => ?_,?_,?_,?_,?_,?_,?_,?_⟩
 · rw [hbuf]
   by_cases hij : i = s.tp.firstFree
   · exact hij ▸ hjnone
   · exact h.slots.dead i (by simpa [hij] using hi)
 · exact custody_event_congr h.events rfl hbuf rfl rfl
 · exact custody_serial_congr h.serials rfl rfl
 · exact fun i => (hbuf i).trans (h.books.stored i)
 · exact h.books.transit
 · intro i n hi
   have hij : i ≠ s.tp.firstFree := by
    rintro rfl
    simp [hjslot] at hi
   simpa [hij] using h.books.storedDest i n hi
 · intro tick highWm i ev x n hp
   have hold := h.books.transitDest tick highWm i ev x n hp
   have hij : i ≠ s.tp.firstFree := by
    rintro rfl
    simp [hjdead] at hold
   simpa [hij] using hold
 · exact h.books.posted

variable {hdl : Nat}

lemma Sets.callerOk {a : Action} {absTck : Nat} {tmoEv : Option Event}
 (hset : Sets s hdl tmoEv absTck a) (hok : CallerOk s a) :
 NamesLive s hdl ∧ ∀ ev, tmoEv = some ev → s.owned ev = true := by
 cases hset <;> exact hok

section

variable (h : Inv s)

include h

lemma keep_inv {tp : Pool} (htm : tp.timers = s.tp.timers)
 (hff : tp.firstFree = s.tp.firstFree) (hna : tp.numAlloc = s.tp.numAlloc)
 (hnt : tp.numTimers = s.tp.numTimers)
 (hbuf : ∀ i, (tp.tickBuf i).tmoBuf = (s.tp.tickBuf i).tmoBuf) : Inv { s with tp := tp } where
 slots := { h.slots with
  chain := by simpa only [htm,hff,hna,hnt] using h.slots.chain
  dead := fun i hi => (hbuf i).trans (h.slots.dead i hi)
  liveLt := by simpa only [hnt] using h.slots.liveLt
  freeingDead := by simpa only [hnt] using h.slots.freeingDead }
 events := custody_event_congr h.events rfl hbuf rfl rfl
 serials := custody_serial_congr h.serials rfl rfl
 books := { h.books with
  stored := fun i => (hbuf i).trans (h.books.stored i)
  storedDest := by simpa only [htm] using h.books.storedDest
  transitDest := by simpa only [htm] using h.books.transitDest }

lemma takeOut_inv (idx x : Nat) : Inv (s.takenOut idx x) := by
 rw [State.takenOut]
 have hbuf : ∀ i, ((s.tp.setTickBuf idx ⟨x,none⟩).tickBuf i).tmoBuf =
  if i = idx then none else (s.tp.tickBuf i).tmoBuf := by
  intro i
  by_cases hi : i = idx <;> simp [hi]
 refine ⟨{ h.slots with dead := ?_ },
  custody_event_takeOut h.events rfl hbuf rfl rfl,custody_serial_giveBack h.serials rfl rfl,
  ?_,h.books.transit,?_,h.books.transitDest,h.books.posted⟩
 · intro i hi
   simp only [hbuf]
   split_ifs
   · rfl
   · exact h.slots.dead i hi
 · intro i
   by_cases hi : i = idx
   · simp [hi]
   · simpa [hi] using h.books.stored i
 · intro i n hi
   by_cases hii : i = idx
   · simp [hii] at hi
   · exact h.books.storedDest i n (by simpa [hii] using hi)

lemma putIn_inv {idx ev : Nat} (absTck : Nat) (hlive : s.live idx = true)
 (hempty : (s.tp.tickBuf idx).tmoBuf = none) (hev : s.owned ev = true)
 (tmoHdr : Event → TimeoutHdr) : Inv { s with
 tp := s.tp.setTickBuf idx ⟨absTck,some ev⟩
 tmoHdr := tmoHdr
 owned := update s.owned ev false
 ledger := { s.ledger with
  issued := s.ledger.issued+1
  slot := update s.ledger.slot idx (some s.ledger.issued)
  event := update s.ledger.event s.ledger.issued ev
  dest := update s.ledger.dest s.ledger.issued (s.tp.timers idx).queue } } := by
 have hbuf : ∀ i, ((s.tp.setTickBuf idx ⟨absTck,some ev⟩).tickBuf i).tmoBuf =
  if i = idx then some ev else (s.tp.tickBuf i).tmoBuf := by
  intro i
  by_cases hi : i = idx <;> simp [hi]
 have hslot := h.slot_none hempty
 -- what the ledger says of a number that has met its fate is not overwritten
 have hne : ∀ f n, f ≠ Fate.unissued → serialAt s f n ≠ 0 → n ≠ s.ledger.issued :=
  fun f n hf hn => ne_of_lt (serial_lt_issued h.serials hf hn)
 refine ⟨{ h.slots with dead := ?_ },
  custody_event_putIn h.events hev hempty rfl hbuf rfl rfl,
  custody_serial_issue h.serials hslot rfl rfl,?_,?_,?_,?_,?_⟩
 · intro i hi
   have hii : i ≠ idx := by
    rintro rfl
    simp [hlive] at hi
   simp only [hbuf,hii]
   exact h.slots.dead i hi
 · intro i
   simp only [hbuf]
   by_cases hi : i = idx
   · simp [hi]
   · simp only [hi,ne_eq,not_false_eq_true,update_of_ne,h.books.stored i]
     cases hn : s.ledger.slot i with
     | none => rfl
     | some n =>
      have := hne (.stored i) n (by simp) (by simp [hn])
      simp [this]
 · rw [h.books.transit]
   cases hn : s.notifier.serial with
   | none => rfl
   | some n =>
    have := hne .transit n (by simp) (by simp [hn])
    simp [this]
 · intro i n hi
   simp only [Pool.setTickBuf]
   by_cases hii : i = idx
   · subst hii
     obtain rfl : s.ledger.issued = n := by simpa using hi
     simp
   · have hold : s.ledger.slot i = some n := by simpa [hii] using hi
     rw [update_of_ne (hne (.stored i) n (by simp) (by simp [hold]))]
     exact h.books.storedDest i n hold
 · intro tick highWm i e x n hp
   obtain ⟨hl,hd⟩ := h.books.transitDest tick highWm i e x n hp
   simp only at hp
   refine ⟨hl,?_⟩
   simp only [Pool.setTickBuf]
   rw [update_of_ne (hne .transit n (by simp) (by simp [hp,Notifier.serial]))]
   exact hd
 · intro d hd
   have := hne .delivered d.serial (by simp) (by simpa [count_eq_zero] using ⟨d,hd,rfl⟩)
   simpa [this] using h.books.posted d hd

lemma swap_inv {idx ev : Nat} (absTck : Nat) (hlive : s.live idx = true) (hown : s.owned ev = true)
 (tmoHdr : Event → TimeoutHdr) : Inv (s.swapped idx absTck ev tmoHdr) := by
 -- the timer gives up its old event before it takes the new one
 have hold : giveOwned s.owned (s.tp.tickBuf idx).tmoBuf ev = true := by
  simp [giveOwned,hown]
 have hput :=
  putIn_inv (takeOut_inv h idx absTck) absTck hlive (by simp [State.takenOut]) hold tmoHdr
 have hcomm : giveOwned (update s.owned ev false) (s.tp.tickBuf idx).tmoBuf =
  update (giveOwned s.owned (s.tp.tickBuf idx).tmoBuf) ev false := by
  funext e
  by_cases he : e = ev
  · subst he
    have hne : (s.tp.tickBuf idx).tmoBuf ≠ some e := by
     intro hb
     have := owned_eq_false h.events (p := .timer idx) (e := e) (by simp) (by simp [hb])
     simp [hown] at this
    simp [giveOwned,hne]
  · simp [giveOwned,he]
 convert hput using 1
 simp [State.swapped,hcomm,Ledger.handOver]

lemma free_inv {fl : List Nat} (hfl : FreeList s fl) {t : Thread} {idx : Nat}
 (hidle : s.freeing t = none) (hlive : s.live idx = true) :
 Inv { s.takenOut idx tmoUnused with
  freeing := update s.freeing t (some idx)
  live := update s.live idx false
  notifier := s.notifier.markFreed idx } := by
 have h1 := takeOut_inv h idx tmoUnused
 refine ⟨(hfl.free _ _ hidle hlive).slotInv fun i hi => ?_,?_,?_,h1.books.stored,?_,
  h1.books.storedDest,?_,h1.books.posted⟩
 · by_cases hii : i = idx
   · simp [hii]
   · exact h1.slots.dead i (by simpa [hii] using hi)
 · exact custody_event_congr h1.events rfl (fun _ => rfl) (by simp) rfl
 · exact custody_serial_congr h1.serials rfl (by simp)
 · simpa using h1.books.transit
 · intro tick highWm i ev x n hp
   simp only [Notifier.markFreed] at hp
   split at hp
   · next heq =>
     simp only [Notifier.post.injEq,Bool.or_eq_false_iff,beq_eq_false_iff_ne] at hp
     obtain ⟨rfl,rfl,rfl,rfl,rfl,rfl,rfl,hii⟩ := hp
     obtain ⟨hl,hd⟩ := h.books.transitDest _ _ _ _ _ _ heq
     exact ⟨by simpa [hii] using hl,hd⟩
   · next hno => exact absurd hp (hno _ _ _ _ _ _ _)

lemma freeInsert_inv {fl : List Nat} (hfl : FreeList s fl) {t : Thread} {idx : Nat}
 (ht : s.freeing t = some idx) : Inv { s with
  tp := timerFreeInsert s.tp idx
  freeing := update s.freeing t none } := by
 have hdead := (hfl.freeingDead t idx ht).2
 have hslot := h.slot_none (h.slots.dead idx hdead)
 refine ⟨(hfl.freeInsert ht).slotInv h.slots.dead,
  custody_event_congr h.events rfl (fun _ => rfl) rfl rfl,custody_serial_congr h.serials rfl rfl,
  h.books.stored,h.books.transit,?_,?_,h.books.posted⟩
 · intro i n hi
   have hii : i ≠ idx := by
    rintro rfl
    simp [hslot] at hi
   simpa [timerFreeInsert,hii] using h.books.storedDest i n hi
 · intro tick highWm i ev x n hp
   have hold := h.books.transitDest tick highWm i ev x n hp
   have hii : i ≠ idx := by
    rintro rfl
    simp [hdead] at hold
   simpa [timerFreeInsert,hii] using hold

lemma notifier_inv (hn : s.notifier.event = none) {n : Notifier}
 (hn' : n.event = none) (hs' : n.serial = none) : Inv { s with notifier := n } := by
 have hserial : s.notifier.serial = none := by
  have := h.books.transit
  rw [hn] at this
  simpa using this.symm
 refine ⟨{ h.slots with },
  custody_event_congr h.events rfl (fun _ => rfl) (hn'.trans hn.symm) rfl,
  custody_serial_congr h.serials rfl (hs'.trans hserial.symm),h.books.stored,?_,
  h.books.storedDest,?_,h.books.posted⟩
 · simp [hn',hs']
 · intro tick highWm i ev x m hp
   simp only at hp
   simp [hp,Notifier.event] at hn'

lemma grab_inv {tick highWm i : Nat} {ev : Event} (hscan : s.notifier = .scan tick highWm i)
 (hb : (s.tp.tickBuf i).tmoBuf = some ev) : Inv { s with
  tp := s.tp.setTickBuf i ⟨(s.tp.tickBuf i).expTck ||| tmoInactive,none⟩
  notifier := .post tick highWm i ev (s.tp.tickBuf i).expTck ((s.ledger.slot i).getD 0) false
  ledger := s.ledger.grab i } := by
 have hevent : s.notifier.event = none := by rw [hscan]; rfl
 have hserial : s.notifier.serial = none := by rw [hscan]; rfl
 have hstored := h.books.stored i
 rw [hb] at hstored
 obtain ⟨n,hn,hev⟩ := map_eq_some_iff.mp hstored.symm
 have hlive : s.live i = true := by
  by_contra hdead
  simp [h.slots.dead i (by simpa using hdead)] at hb
 have hbuf :
  ∀ j, ((s.tp.setTickBuf i ⟨(s.tp.tickBuf i).expTck ||| tmoInactive,none⟩).tickBuf j).tmoBuf
  = if j = i then none else (s.tp.tickBuf j).tmoBuf := by
  intro j
  by_cases hj : j = i <;> simp [hj]
 simp only [hn]
 refine ⟨{ h.slots with dead := ?_ },
  custody_event_grab h.events rfl hbuf hevent (by simp [Notifier.event,hb]) rfl,
  custody_serial_grab h.serials rfl hserial (by simp [Notifier.serial,hn]),?_,?_,?_,?_,
  h.books.posted⟩
 · intro j hj
   simp only [hbuf]
   split_ifs
   · rfl
   · exact h.slots.dead j hj
 · intro j
   by_cases hj : j = i
   · simp [hj]
   · simpa [hj] using h.books.stored j
 · simp [Notifier.event,Notifier.serial,hev]
 · intro j m hj
   by_cases hji : j = i
   · simp [hji] at hj
   · exact h.books.storedDest j m (by simpa [hji] using hj)
 · intro tick' highWm' j e x m hp
   cases hp
   exact ⟨hlive,h.books.storedDest i n hn⟩

lemma post_inv {tick highWm i ev x n : Nat} {freed : Bool}
 (hpost : s.notifier = .post tick highWm i ev x n freed) :
 Inv (expirePost isTimeout s tick highWm i ev x n freed) := by
 have hevent : s.notifier.event = some ev := by rw [hpost]; rfl
 have hserial : s.notifier.serial = some n := by rw [hpost]; rfl
 refine ⟨{ h.slots with },
  custody_event_post h.events rfl (fun _ => rfl) hevent rfl rfl,
  custody_serial_deliver h.serials rfl hserial rfl,h.books.stored,rfl,h.books.storedDest,?_,?_⟩
 · intro tick' highWm' j e y m hp
   simp [expirePost] at hp
 · intro d hd
   simp only [expirePost,Ledger.deliver,mem_cons] at hd
   rcases hd with rfl | hd
   · refine ⟨?_,fun hf => ?_⟩
     · have := h.books.transit
       rw [hevent,hserial] at this
       exact some.inj this
     · subst hf
       exact (h.books.transitDest _ _ _ _ _ _ hpost).2.symm
   · exact h.books.posted d hd

lemma receive_inv {q : QueueHdl} {ev : Event} {evs : List Event} (hq : s.queue q = ev::evs) :
 Inv { s with
  queue := update s.queue q evs
  owned := update s.owned ev true } :=
 ⟨{ h.slots with },
  custody_event_receive h.events hq rfl (fun _ => rfl) rfl rfl,
  custody_serial_congr h.serials rfl rfl,{ h.books with }⟩

end

lemma step_inv {a : Action} (h : Inv s) {fl : List Nat} (hfl : FreeList s fl) (hok : CallerOk s a)
 (ht : Takes v isTimeout s a s') : Inv s' := by
 cases ht with
 | refused => exact h
 | alloc _ hlt => exact alloc_inv h hfl _ _ hlt
 | @keep _ _ _ idx =>
  refine keep_inv h rfl rfl rfl rfl fun i => ?_
  by_cases hi : i = idx <;> simp [hi]
 | swap hset hidx =>
  obtain ⟨hnames,howned⟩ := hset.callerOk hok
  exact swap_inv h _ (live_of_handle hnames hidx) (howned _ rfl) _
 | cancel => exact takeOut_inv h _ _
 | free hidle hidx => exact free_inv h hfl hidle (live_of_handle hok hidx)
 | freeInsert ht => exact freeInsert_inv h hfl ht
 | notify hidle =>
  have hscan := notifier_inv h (n := .scan s.tp.curTick s.tp.highWm 0) (by rw [hidle]; rfl) rfl rfl
  exact keep_inv hscan rfl rfl rfl rfl fun _ => rfl
 | scanEnd hscan | scanSkip hscan => exact notifier_inv h (by rw [hscan]; rfl) rfl rfl
 | scanGrab hscan _ _ hb => exact grab_inv h hscan hb
 | post hpost => exact post_inv h hpost
 | receive hq => exact receive_inv h hq

end Steps

variable {isTimeout : Event → Bool} {v : ResetVariant}

lemma reachable_inv (h : Reachable v isTimeout s) : Inv s := by
 refine (h.invariant (P := fun s => Inv s ∧ ∃ fl, FreeList s fl) ?_ ?_).1
 · rintro _ ⟨tpIdx,param,tmoHdr,rfl⟩
   exact ⟨init_inv ..,_,.init tpIdx param tmoHdr⟩
 · rintro s a t ⟨hinv,fl,hfl⟩ hok hs
   exact ⟨step_inv hinv hfl hok (takes_of_step hs),hfl.step hok (takes_of_step hs)⟩

/-- No timeout was overtaken by the freeing of its timer. -/
structure NoneFreed (s : State) : Prop where
 transit : ∀ tick highWm i ev expTck n, s.notifier ≠ .post tick highWm i ev expTck n true
 posted : ∀ d ∈ s.ledger.delivered, d.freed = false

lemma step_noneFreed {s' : State} {a : Action}
 (h : NoneFreed s) (hap : FreeApart s a) (hs : step v isTimeout s a = some s') :
 NoneFreed s' := by
 cases takes_of_step hs with
 | @free t hdl idx _ hidx =>
  refine ⟨fun tick highWm i ev x n hp => ?_,h.posted⟩
  simp only [Notifier.markFreed] at hp
  split at hp
  · next freed heq =>
    simp only [Notifier.post.injEq,Bool.or_eq_true,beq_iff_eq] at hp
    obtain ⟨-,-,rfl,-,-,-,rfl | rfl⟩ := hp
    · exact h.transit _ _ _ _ _ _ heq
    · rw [handleToIdx] at hidx
      split_ifs at hidx
      exact hap (by rw [heq,some.inj hidx]; rfl)
  · next hno => exact hno _ _ _ _ _ _ _ hp
 | notify | scanEnd | scanSkip | scanGrab => exact ⟨by simp,h.posted⟩
 | @post _ _ _ _ _ _ freed hpost =>
  refine ⟨by simp [expirePost],fun d hd => ?_⟩
  simp only [expirePost,Ledger.deliver,mem_cons] at hd
  rcases hd with rfl | hd
  · cases freed with
    | false => rfl
    | true => exact absurd hpost (h.transit _ _ _ _ _ _)
  · exact h.posted d hd
 | refused | alloc | keep | swap | cancel | freeInsert | receive => exact ⟨h.transit,h.posted⟩

lemma reachableApart_noneFreed (h : ReachableApart v isTimeout s) : NoneFreed s := by
 refine h.invariant ?_ fun _ _ _ hinv hok hs => step_noneFreed hinv hok.2 hs
 rintro s ⟨tpIdx,param,tmoHdr,rfl⟩
 exact ⟨by simp,by simp⟩

/-- **Timeout events are conserved.** Each event that a successful set handed to a timer has met one
fate, once: it is still in that timer, was given back, was posted to the queue of its timer, or is
with the notification thread. Every event is at one place. -/
theorem timeout_events_conserved {v : ResetVariant} {isTimeout : Event → Bool} {s : State}
 (h : ReachableApart v isTimeout s) :
 (∀ n, n < s.ledger.issued → ∃ f, f ≠ Fate.unissued ∧ serialAt s f n = 1 ∧
  ∀ g, g ≠ f → serialAt s g n = 0) ∧
 (∀ i, (s.tp.tickBuf i).tmoBuf = (s.ledger.slot i).map s.ledger.event) ∧
 (∀ d ∈ s.ledger.delivered, d.event = s.ledger.event d.serial ∧ d.queue = s.ledger.dest d.serial) ∧
 (∀ e, ∃ p, eventAt s p e = 1 ∧ ∀ q, q ≠ p → eventAt s q e = 0) ∧
 (∀ i j e, (s.tp.tickBuf i).tmoBuf = some e → (s.tp.tickBuf j).tmoBuf = some e → i = j) := by
 have hinv := reachable_inv (h.mono fun _ _ => And.left)
 refine ⟨fun n hn => ?_,hinv.books.stored,fun d hd => ?_,fun e => ?_,fun i j e hi hj => ?_⟩
 · obtain ⟨f,hf,-⟩ := hinv.serials.existsUnique n
   refine ⟨f,?_,hf,fun g hg => hinv.serials.eq_zero (by rw [hf]; decide) hg⟩
   rintro rfl
   simp only [serialAt] at hf
   split_ifs at hf
   omega
 · obtain ⟨hevent,hqueue⟩ := hinv.books.posted d hd
   exact ⟨hevent,hqueue ((reachableApart_noneFreed h).posted d hd)⟩
 · obtain ⟨p,hp,-⟩ := hinv.events.existsUnique e
   exact ⟨p,hp,fun q hq => hinv.events.eq_zero (by rw [hp]; decide) hq⟩
 · have := hinv.events.unique (p := .timer i) (q := .timer j) (t := e) (by simp [hi])
    (by simp [hj])
   simpa using this

/-- A timer is set twice and expires: the first event came back, the second was posted. -/
theorem timeout_events_conserved_two_sets : ∃ s, ReachableApart .withLock (fun _ => true) s ∧
 (s.ledger.returned = [0] ∧ s.ledger.delivered = [⟨1,8,5,false⟩] ∧ s.queue 5 = [8] ∧
  s.ledger.issued = 2) ∧
 ∀ n, n < 2 → ∃ f, f ≠ Fate.unissued ∧ serialAt s f n = 1 ∧ ∀ g, g ≠ f → serialAt s g n = 0 := by
 have h0 : ReachableApart .withLock (fun _ => true) (.init 0 ⟨1,0,10,4⟩ fun _ => ⟨0,0,0⟩) :=
  .start ⟨_,_,_,rfl⟩
 obtain ⟨s,hs,htest⟩ := h0.exists_of_run
  [.alloc 5 0,.setAbs 0 0 (some 7),.setRel 0 0 (some 8),.notify,.scan,.post]
  (fun s => s.ledger.returned = [0] ∧ s.ledger.delivered = [⟨1,8,5,false⟩] ∧
   s.queue 5 = [8] ∧ s.ledger.issued = 2) (by decide)
 refine ⟨s,hs,htest,?_⟩
 have hall := (timeout_events_conserved hs).1
 rwa [htest.2.2.2] at hall

/-- The timer is freed between the release of its lock and the enqueue: `queue` is the next free
index by then, and the timeout goes there. -/
theorem timeout_event_misdirected :
 ∃ s, Reachable .withLock (fun _ => true) s ∧ s.ledger.dest 0 = 5 ∧
 s.ledger.delivered = [⟨0,7,1,true⟩] ∧ s.queue 5 = [] ∧ s.queue 1 = [7] := by
 have h0 : Reachable .withLock (fun _ => true) (.init 0 ⟨1,0,10,4⟩ fun _ => ⟨0,0,0⟩) :=
  .start ⟨_,_,_,rfl⟩
 exact h0.exists_of_run [.alloc 5 0,.setAbs 0 0 (some 7),.notify,.scan,.free 0 0,.freeInsert 0,
  .post] _ (by decide)

end Packages.TimerPool
