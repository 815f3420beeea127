import Packages.Lib.Custody
import Packages.Lib.Linked
import Packages.PlainQueue.Model

/-!
# Plain queues are lists

The abstract queue is a list of events. Every operation takes effect on it in one step of its
thread. An event is with the application, on one list or in one call, so the links that a thread
writes before it has the lock are links of its own events.
-/

namespace Packages.PlainQueue

open Function State List Option

open Scheduler (queueMultiMax)
open Transition (Reach)

variable {κ τ : Type*}

-- Lists of events

inductive Op (κ : Type*)
 | enq (q : κ) (ev : Event)
 | enqMulti (q : κ) (evs : List Event)
 | deq (q : κ)
 | deqMulti (q : κ) (num : Int)

namespace Op

/-- How many events `odp_queue_deq_multi` asks for. -/
def limit (num : Int) : Nat := (min num queueMultiMax).toNat

def apply [DecidableEq κ] (lists : κ → List Event) : Op κ → κ → List Event
 | .enq q ev => update lists q (lists q++[ev])
 | .enqMulti q evs => update lists q (lists q++evs.take queueMultiMax)
 | .deq q => update lists q (lists q).tail
 | .deqMulti q num => update lists q ((lists q).drop (limit num))

def removed (lists : κ → List Event) : Op κ → List Event
 | .enq _ _ | .enqMulti _ _ => []
 | .deq q => (lists q).take 1
 | .deqMulti q num => (lists q).take (limit num)

def ret (lists : κ → List Event) : Op κ → Ret
 | .enq _ _ => .enq 0
 | .enqMulti _ evs => .enq (min evs.length queueMultiMax : Nat)
 | .deq q => .deq (lists q).head?
 | .deqMulti q num => .deqMulti ((lists q).take (limit num)).length ((lists q).take (limit num))

end Op

/-- The operation that takes effect with the step. -/
def effect (s : State κ τ) (a : Action κ τ) : Option (Op κ) :=
 match s.pc a.thread,a with
 | .enq q ev,.step _ => some (.enq q ev)
 | .enqMulti q evs _,.step _ => some (.enqMulti q evs)
 | .idle,.enqMulti _ q [] => some (.enqMulti q [])
 | .idle,.deq _ q => some (.deq q)
 | .idle,.deqMulti _ q num => some (.deqMulti q num)
 | _,_ => none

def State.next (s : State κ τ) (ev : Event) : Option Event := (s.hdr ev).next

/-- The entry of each queue leads through its list, and `tail` is the last event of it. -/
structure Represents (s : State κ τ) (lists : κ → List Event) : Prop where
 linked : ∀ q, Linked some s.next (s.queue q).head (lists q) none
 tail : ∀ q, (s.queue q).tail = (lists q).getLast?

-- Runs

/-- Empty plain queues, threads outside of ordered contexts and events without an ordered origin. -/
def Init (s : State κ τ) : Prop :=
 (∀ q, (s.queue q).status = .ready ∧ (s.queue q).ordered = false ∧ (s.queue q).head = none ∧
  (s.queue q).tail = none) ∧
 (∀ ev, (s.hdr ev).originQe = none ∧ s.owned ev = true) ∧
 ∀ t, s.pc t = .idle ∧ s.originQe t = none

/-- Callers enqueue events that they have, and none twice. -/
def CallerOk (s : State κ τ) : Action κ τ → Prop
 | .enq _ _ ev => s.owned ev = true
 | .enqMulti _ _ evs =>
  (evs.take queueMultiMax).Nodup ∧ ∀ ev ∈ evs.take queueMultiMax, s.owned ev = true
 | .deq _ _ | .deqMulti _ _ _ | .step _ => True

instance (s : State κ τ) : ∀ a, Decidable (CallerOk s a)
 | .enq _ _ ev => inferInstanceAs (Decidable (s.owned ev = true))
 | .enqMulti _ _ evs => inferInstanceAs
  (Decidable ((evs.take queueMultiMax).Nodup ∧ ∀ ev ∈ evs.take queueMultiMax, s.owned ev = true))
 | .deq _ _ | .deqMulti _ _ _ | .step _ => inferInstanceAs (Decidable True)

/-- A thread that is inside a call goes on with it, any other one calls. -/
def Enabled (s : State κ τ) : Action κ τ → Prop
 | .step t => s.pc t ≠ .idle
 | a => s.pc a.thread = .idle

section

variable [DecidableEq κ] [DecidableEq τ]

/-- The queues together with the lists, on which the operations take effect. -/
def pairStep (x : State κ τ × (κ → List Event)) (a : Action κ τ) :
 Option (State κ τ × (κ → List Event)) :=
 (step x.1 a).map fun s => (s,((effect x.1 a).map (Op.apply x.2)).getD x.2)

abbrev Reachable : State κ τ × (κ → List Event) → Prop :=
 Reach (fun x => Init x.1 ∧ ∀ q, x.2 q = []) pairStep fun x a => CallerOk x.1 a

end

-- The invariant

/-- The events of the call. -/
def Pc.events : Pc κ → List Event
 | .idle => []
 | .enq _ ev => [ev]
 | .chain _ evs num _ | .enqMulti _ evs num => evs.take num

@[simp] lemma Pc.events_idle : (Pc.idle : Pc κ).events = [] := rfl

/-- The links that the call has written. -/
def Pc.Chained (next : Event → Option Event) : Pc κ → Prop
 | .idle | .enq _ _ => True
 | .chain _ evs num i => num = min evs.length queueMultiMax ∧ i < num ∧
  Linked some next evs[0]? (evs.take i) evs[i]?
 | .enqMulti _ evs num => num = min evs.length queueMultiMax ∧ 0 < num ∧
  Linked some next evs[0]? (evs.take num) none

inductive Place (κ τ : Type*)
 | application
 | list (q : κ)
 | call (t : τ)
 deriving DecidableEq

/-- How often the event is there. -/
def eventAt (s : State κ τ) (lists : κ → List Event) : Place κ τ → Event → Nat
 | .application,ev => if s.owned ev then 1 else 0
 | .list q,ev => (lists q).count ev
 | .call t,ev => (s.pc t).events.count ev

attribute [local simp] eventAt setNext

variable [DecidableEq κ] [DecidableEq τ]

structure Inv (s : State κ τ) (lists : κ → List Event) : Prop where
 represents : Represents s lists
 custody : Custody (eventAt s lists)
 calls : ∀ t, (s.pc t).Chained s.next
 plain : ∀ q, (s.queue q).status = .ready ∧ (s.queue q).ordered = false
 unordered : (∀ ev, (s.hdr ev).originQe = none) ∧ ∀ t, s.originQe t = none

variable {s s' : State κ τ} {lists lists' : κ → List Event} {t : τ} {q : κ} {ev : Event}

omit [DecidableEq κ] in
lemma Pc.Chained.congr {pc : Pc κ} {next next' : Event → Option Event} (h : pc.Chained next)
 (hnext : ∀ ev ∈ pc.events, next' ev = next ev) : pc.Chained next' := by
 cases pc with
 | idle | enq q ev => trivial
 | chain q evs num i =>
  obtain ⟨hnum,hi,hlinked⟩ := h
  refine ⟨hnum,hi,hlinked.congr fun ev hev => hnext ev ?_⟩
  exact (take_subset_take_left evs (le_of_lt hi)) hev
 | enqMulti q evs num =>
  obtain ⟨hnum,hpos,hlinked⟩ := h
  exact ⟨hnum,hpos,hlinked.congr hnext⟩

namespace Inv

section

variable (h : Inv s lists)

include h

lemma nodup (q : κ) : (lists q).Nodup := h.custody.nodup (p := .list q) fun _ => rfl

lemma call_nodup (t : τ) : (s.pc t).events.Nodup :=
 h.custody.nodup (p := .call t) fun _ => rfl

lemma notMem_list {p : Place κ τ} (hp : eventAt s lists p ev ≠ 0) (hne : p ≠ .list q) :
 ev ∉ lists q := fun hmem => hne (h.custody.unique hp (count_pos_iff.mpr hmem).ne')

lemma notMem_call {p : Place κ τ} (hp : eventAt s lists p ev ≠ 0) (hne : p ≠ .call t) :
 ev ∉ (s.pc t).events := fun hmem => hne (h.custody.unique hp (count_pos_iff.mpr hmem).ne')

/-- A step of `t` on `q` that writes links of events on the queue or of the call only. -/
lemma update (t : τ) (q : κ) (hqueue : ∀ r, r ≠ q → s'.queue r = s.queue r)
 (hlists : ∀ r, r ≠ q → lists' r = lists r) (hpc : ∀ u, u ≠ t → s'.pc u = s.pc u)
 (hnext : ∀ ev, ev ∉ lists q → ev ∉ (s.pc t).events → s'.next ev = s.next ev)
 (hcustody : Custody (eventAt s' lists'))
 (hlinked : Linked some s'.next (s'.queue q).head (lists' q) none)
 (htail : (s'.queue q).tail = (lists' q).getLast?) (hcall : (s'.pc t).Chained s'.next)
 (hplain : (s'.queue q).status = .ready ∧ (s'.queue q).ordered = false)
 (hunordered : (∀ ev, (s'.hdr ev).originQe = none) ∧ s'.originQe = s.originQe) : Inv s' lists' := by
 refine ⟨⟨fun r => ?_,fun r => ?_⟩,hcustody,fun u => ?_,fun r => ?_,hunordered.1,fun u => ?_⟩
 · by_cases hr : r = q
   · exact hr ▸ hlinked
   · rw [hqueue r hr,hlists r hr]
     refine (h.represents.linked r).congr fun ev hev => hnext ev ?_ ?_
     · exact h.notMem_list (p := .list r) (count_pos_iff.mpr hev).ne' fun heq =>
        hr (Place.list.inj heq)
     · exact h.notMem_call (p := .list r) (count_pos_iff.mpr hev).ne' nofun
 · by_cases hr : r = q
   · exact hr ▸ htail
   · rw [hqueue r hr,hlists r hr]
     exact h.represents.tail r
 · by_cases hu : u = t
   · exact hu ▸ hcall
   · rw [hpc u hu]
     refine (h.calls u).congr fun ev hev => hnext ev ?_ ?_
     · exact h.notMem_list (p := .call u) (count_pos_iff.mpr hev).ne' nofun
     · exact h.notMem_call (p := .call u) (count_pos_iff.mpr hev).ne' fun heq =>
        hu (Place.call.inj heq)
 · by_cases hr : r = q
   · exact hr ▸ hplain
   · rw [hqueue r hr]
     exact h.plain r
 · rw [hunordered.2]
   exact h.unordered.2 u

end

end Inv

-- Small steps of the state

omit [DecidableEq κ] [DecidableEq τ] in
@[simp] lemma next_setNext (s : State κ τ) (ev : Event) (v : Option Event) :
 (s.setNext ev v).next = update s.next ev v := by
 funext x
 by_cases hx : x = ev
 · subst hx
   simp [State.next]
 · simp [State.next,hx]

omit [DecidableEq κ] [DecidableEq τ] in
lemma originQe_setNext (s : State κ τ) (ev x : Event) (v : Option Event) :
 ((s.setNext ev v).hdr x).originQe = (s.hdr x).originQe := by
 by_cases hx : x = ev
 · subst hx
   simp
 · simp [hx]

omit [DecidableEq κ] in
@[simp] lemma pc_setPc (s : State κ τ) (t : τ) (pc : Pc κ) : (s.setPc t pc).pc t = pc :=
 update_self ..

omit [DecidableEq κ] in
lemma pc_setPc_of_ne (s : State κ τ) {t u : τ} (pc : Pc κ) (hu : u ≠ t) :
 (s.setPc t pc).pc u = s.pc u :=
 update_of_ne hu ..

-- Moving events

namespace Inv

variable {evs rest : List Event} {pc : Pc κ}

lemma custody_call (h : Inv s lists) (hidle : s.pc t = .idle) (hnodup : evs.Nodup)
 (howned : ∀ ev ∈ evs, s.owned ev = true) (hpc : s'.pc = Function.update s.pc t pc)
 (hevents : pc.events = evs)
 (htaken : s'.owned = fun ev => if ev ∈ evs then false else s.owned ev) :
 Custody (eventAt s' lists) := by
 refine h.custody.move (l := evs) (a := .application) (b := .call t) fun p ev => ?_
 cases p with
 | application =>
  by_cases hev : ev ∈ evs
  · simp [htaken,hev,howned ev hev,count_eq_one_of_mem hnodup hev]
  · simp [htaken,hev,count_eq_zero_of_not_mem hev]
 | list r => simp
 | call u =>
  by_cases hu : u = t
  · subst hu
    simp [hpc,hevents,hidle]
  · simp [hpc,hu]

lemma custody_enq (h : Inv s lists) (q : κ) (hevents : (s.pc t).events = evs)
 (hpc : s'.pc = Function.update s.pc t .idle) (howned : s'.owned = s.owned) :
 Custody (eventAt s' (Function.update lists q (lists q++evs))) := by
 refine h.custody.move (l := evs) (a := .call t) (b := .list q) fun p ev => ?_
 cases p with
 | application => simp [howned]
 | list r =>
  by_cases hr : r = q
  · subst hr
    simp
  · simp [hr]
 | call u =>
  by_cases hu : u = t
  · subst hu
    simp [hpc,hevents]
  · simp [hpc,hu]

lemma custody_deq (h : Inv s lists) (hlist : lists q = evs++rest) (hpc : s'.pc = s.pc)
 (hgiven : s'.owned = fun ev => if ev ∈ evs then true else s.owned ev) :
 Custody (eventAt s' (Function.update lists q rest)) := by
 have hnodup : evs.Nodup := by
  have hall := h.nodup q
  rw [hlist] at hall
  exact hall.of_append_left
 refine h.custody.move (l := evs) (a := .list q) (b := .application) fun p ev => ?_
 cases p with
 | application =>
  by_cases hev : ev ∈ evs
  · have hmem : eventAt s lists (.list q) ev ≠ 0 := by
     refine (count_pos_iff.mpr ?_).ne'
     rw [hlist]
     exact mem_append_left rest hev
    have hnot := h.custody.eq_zero (q := .application) hmem nofun
    simp at hnot
    simp [hgiven,hev,hnot,count_eq_one_of_mem hnodup hev]
  · simp [hgiven,hev,count_eq_zero_of_not_mem hev]
 | list r =>
  by_cases hr : r = q
  · subst hr
    simp [hlist,add_comm]
  · simp [hr]
 | call u => simp [hpc]

end Inv

/-- The chain `evs` is hung behind the list of the queue. -/
structure Appends (s s' : State κ τ) (q : κ) (list evs : List Event) : Prop where
 linked : Linked some s'.next (s'.queue q).head (list++evs) none
 tail : (s'.queue q).tail = (list++evs).getLast?
 queue : ∀ r, r ≠ q → s'.queue r = s.queue r
 entry : (s'.queue q).status = (s.queue q).status ∧ (s'.queue q).ordered = (s.queue q).ordered
 next : ∀ ev, ev ∉ list → s'.next ev = s.next ev
 origin : ∀ ev, (s'.hdr ev).originQe = (s.hdr ev).originQe
 rest : s'.pc = s.pc ∧ s'.owned = s.owned ∧ s'.originQe = s.originQe

omit [DecidableEq τ] in
lemma exists_appends {list evs : List Event} {first last : Event}
 (hlist : Linked some s.next (s.queue q).head list none) (htail : (s.queue q).tail = list.getLast?)
 (hevs : Linked some s.next (some first) evs none) (hlast : evs.getLast? = some last)
 (hnodup : list.Nodup) (hdisjoint : ∀ ev ∈ list, ev ∉ evs) :
 ∃ s', s.append q first last = some s' ∧ Appends s s' q list evs := by
 obtain rfl | ⟨pre,x,rfl⟩ := list.eq_nil_or_concat'
 · -- the queue was empty
   have hhead : (s.queue q).head = none := hlist
   have happend : s.append q first last =
    some (s.modify q fun e => { e with head := some first,tail := some last }) := by
    simp only [append,hhead]
   refine ⟨_,happend,?_,?_,fun r hr => ?_,?_,fun ev _ => rfl,fun ev => rfl,rfl,rfl,rfl⟩
   · simp only [State.modify,update_self]
     exact hevs
   · simp only [State.modify,update_self,nil_append,hlast]
   · exact update_of_ne hr ..
   · simp only [State.modify,update_self,and_self]
 · have hx : x ∉ pre ∧ x ∉ evs := by
    refine ⟨fun hmem => ?_,hdisjoint x (by simp)⟩
    exact (nodup_append.mp hnodup).2.2 x hmem x (mem_singleton_self x) rfl
   have hhead : ∃ y, (s.queue q).head = some y := by
    cases pre with
    | nil => exact ⟨x,hlist.1⟩
    | cons y pre => exact ⟨y,hlist.1⟩
   obtain ⟨y,hhead⟩ := hhead
   have htail : (s.queue q).tail = some x := by
    rw [htail]
    exact getLast?_concat
   have hsplice := hlist.splice hevs hx.1 hx.2
   have happend : s.append q first last =
    some ((s.setNext x (some first)).modify q fun e => { e with tail := some last }) := by
    simp only [append,hhead,htail]
   refine ⟨_,happend,?_,?_,fun r hr => ?_,?_,fun ev hev => ?_,fun ev => ?_,rfl,rfl,rfl⟩
   · simp only [State.modify,update_self,append_assoc]
     have hnext : ((s.setNext x (some first)).next) = update s.next x (some first) :=
      next_setNext s x (some first)
     rw [← hnext] at hsplice
     exact hsplice
   · have hne : evs ≠ [] := by
      rintro rfl
      cases hlast
     simp only [State.modify,update_self]
     rw [getLast?_append_of_ne_nil _ hne,hlast]
   · exact update_of_ne hr ..
   · simp only [State.modify,update_self]
     exact ⟨rfl,rfl⟩
   · have hne : ev ≠ x := by
      rintro rfl
      exact hev (by simp)
     show (s.setNext x (some first)).next ev = s.next ev
     rw [next_setNext,update_of_ne hne]
   · exact originQe_setNext s x ev (some first)

/-- The events leave a queue that is not ordered. -/
structure Unlinks (s s' : State κ τ) (evs : List Event) : Prop where
 next : ∀ ev, s'.next ev = if ev ∈ evs then none else s.next ev
 origin : ∀ ev, (s.hdr ev).originQe = none → (s'.hdr ev).originQe = none
 rest : s'.queue = s.queue ∧ s'.pc = s.pc ∧ s'.owned = s.owned ∧ s'.originQe = s.originQe

omit [DecidableEq τ] in
lemma unlinks_unlink (hplain : (s.queue q).ordered = false) (ev : Event) :
 Unlinks s (s.unlink q ev) [ev] := by
 rw [unlink,if_neg (by simp [hplain])]
 refine ⟨fun x => ?_,fun x hx => ?_,rfl,rfl,rfl,rfl⟩
 · by_cases hx : x = ev
   · subst hx
     simp [State.next]
   · simp [State.next,hx]
 · by_cases hxe : x = ev
   · subst hxe
     simp
   · simpa [hxe] using hx

omit [DecidableEq κ] [DecidableEq τ] in
lemma Unlinks.trans {s1 s2 : State κ τ} {evs evs' : List Event} (h : Unlinks s s1 evs)
 (h' : Unlinks s1 s2 evs') : Unlinks s s2 (evs++evs') := by
 refine ⟨fun ev => ?_,fun ev hev => h'.origin ev (h.origin ev hev),h'.rest.1.trans h.rest.1,
  h'.rest.2.1.trans h.rest.2.1,h'.rest.2.2.1.trans h.rest.2.2.1,h'.rest.2.2.2.trans h.rest.2.2.2⟩
 rw [h'.next,h.next]
 split_ifs <;> simp_all

omit [DecidableEq τ] in
lemma deqLoop_spec (hplain : (s.queue q).ordered = false) {list : List Event} {head : Option Event}
 (hlinked : Linked some s.next head list none) (hnodup : list.Nodup) (num : Nat) :
 ∃ s' head', deqLoop q num head s = (s',list.take num,head') ∧ Unlinks s s' (list.take num) ∧
  Linked some s'.next head' (list.drop num) none := by
 induction num generalizing s head list with
 | zero => exact ⟨s,head,rfl,⟨fun _ => rfl,fun _ h => h,rfl,rfl,rfl,rfl⟩,hlinked⟩
 | succ num ih =>
  cases list with
  | nil =>
   obtain rfl : head = none := hlinked
   exact ⟨s,none,rfl,⟨fun _ => rfl,fun _ h => h,rfl,rfl,rfl,rfl⟩,rfl⟩
  | cons ev list =>
   obtain ⟨rfl,htail⟩ := hlinked
   obtain ⟨hnot,hnodup⟩ := nodup_cons.mp hnodup
   have hu := unlinks_unlink hplain ev
   have hplain' : ((s.unlink q ev).queue q).ordered = false := by
    rw [hu.rest.1]
    exact hplain
   have hkept : Linked some (s.unlink q ev).next (s.next ev) list none := by
    refine htail.congr fun x hx => ?_
    rw [hu.next,if_neg]
    rintro hmem
    exact hnot (mem_singleton.mp hmem ▸ hx)
   obtain ⟨s',head',hloop,hu',hrest⟩ := ih hplain' hkept hnodup
   refine ⟨s',head',?_,?_,hrest⟩
   · rw [deqLoop]
     show _ = (s',ev::list.take num,head')
     have hnext : (s.hdr ev).next = s.next ev := rfl
     rw [hnext,hloop]
   · exact hu.trans hu'

-- The steps

omit [DecidableEq τ] in
lemma modify_eq_self {f : Queue → Queue} (hf : f (s.queue q) = s.queue q) : s.modify q f = s := by
 rw [State.modify,hf,update_eq_self]

omit [DecidableEq τ] in
lemma wake_eq (h : (s.queue q).status = .ready) : s.wake q = s :=
 modify_eq_self (if_neg (by rw [h]; decide))

omit [DecidableEq τ] in
lemma sleep_eq (h : (s.queue q).status = .ready) : s.sleep q = s :=
 modify_eq_self (if_neg (by rw [h]; decide))

omit [DecidableEq κ] in
lemma pc_return (hidle : s.pc t = .idle) (r : Ret) : (s.return_ t r).pc = s.pc := by
 rw [return_,← hidle]
 exact update_eq_self t s.pc

omit [DecidableEq κ] in
lemma ret_return (s : State κ τ) (t : τ) (r : Ret) : (s.return_ t r).ret t = some r :=
 update_self ..

namespace Inv

variable {evs rest : List Event} {num i : Nat}

section

variable (h : Inv s lists)

include h

lemma not_bad (q : κ) : ¬ (s.queue q).status.bad = true := by
 rw [(h.plain q).1]
 decide

lemma getQueueOrder (t : τ) (ev : Event) : s.getQueueOrder t ev = none := by
 rw [State.getQueueOrder,h.unordered.1,h.unordered.2]
 rfl

lemma return_ (hidle : s.pc t = .idle) (r : Ret) : Inv (s.return_ t r) lists := by
 have hpc := pc_return hidle r
 refine ⟨⟨h.represents.linked,h.represents.tail⟩,?_,fun u => ?_,h.plain,h.unordered⟩
 · have hsame : eventAt (s.return_ t r) lists = eventAt s lists := by
    funext p ev
    cases p with
    | application | list r => rfl
    | call u =>
     show ((s.return_ t r).pc u).events.count ev = (s.pc u).events.count ev
     rw [hpc]
   rw [hsame]
   exact h.custody
 · rw [hpc]
   exact h.calls u

lemma call (hidle : s.pc t = .idle) (pc : Pc κ) (hchained : pc.Chained s.next)
 (hnodup : pc.events.Nodup) (howned : ∀ ev ∈ pc.events, s.owned ev = true) :
 Inv ((s.setOwned pc.events false).setPc t pc) lists := by
 refine ⟨⟨h.represents.linked,h.represents.tail⟩,?_,fun u => ?_,h.plain,h.unordered⟩
 · exact h.custody_call hidle hnodup howned rfl rfl rfl
 · by_cases hu : u = t
   · subst hu
     rw [pc_setPc]
     exact hchained
   · rw [pc_setPc_of_ne _ pc hu]
     exact h.calls u

lemma write (hev : ev ∈ (s.pc t).events) (v : Option Event) {pc : Pc κ}
 (hevents : pc.events = (s.pc t).events) (hchained : pc.Chained (Function.update s.next ev v)) :
 Inv ((s.setNext ev v).setPc t pc) lists := by
 have hat : eventAt s lists (.call t) ev ≠ 0 := (count_pos_iff.mpr hev).ne'
 have hnext : ((s.setNext ev v).setPc t pc).next = Function.update s.next ev v :=
  next_setNext s ev v
 refine ⟨⟨fun q => ?_,h.represents.tail⟩,?_,fun u => ?_,h.plain,fun x => ?_,h.unordered.2⟩
 · rw [hnext]
   exact (h.represents.linked q).update_of_notMem (h.notMem_list hat nofun) v
 · have hsame : eventAt ((s.setNext ev v).setPc t pc) lists = eventAt s lists := by
    funext p x
    cases p with
    | application | list r => rfl
    | call u =>
     by_cases hu : u = t
     · subst hu
       simp [hevents]
     · simp [setPc,hu]
   rw [hsame]
   exact h.custody
 · rw [hnext]
   by_cases hu : u = t
   · subst hu
     rw [pc_setPc]
     exact hchained
   · rw [pc_setPc_of_ne _ pc hu]
     refine (h.calls u).congr fun x hx => update_of_ne ?_ ..
     rintro rfl
     exact h.notMem_call hat (fun heq => hu (Place.call.inj heq).symm) hx
 · rw [← h.unordered.1 x]
   exact originQe_setNext s ev x v

lemma enqueue (hevents : (s.pc t).events = evs) (s1 : State κ τ) {s2 : State κ τ}
 (hs1 : s1.queue = s.queue ∧ s1.pc = s.pc ∧ s1.owned = s.owned ∧ s1.originQe = s.originQe)
 (hnext : ∀ ev, ev ∉ evs → s1.next ev = s.next ev)
 (horigin : ∀ ev, (s1.hdr ev).originQe = (s.hdr ev).originQe)
 (happ : Appends s1 s2 q (lists q) evs) (r : Ret) :
 Inv ((s2.wake q).return_ t r) (Function.update lists q (lists q++evs)) := by
 have hready : (s2.queue q).status = .ready := by
  rw [happ.entry.1,hs1.1]
  exact (h.plain q).1
 rw [wake_eq hready]
 refine h.update t q (fun r hr => ?_) (fun r hr => update_of_ne hr ..) (fun u hu => ?_)
  (fun ev hlist hcall => ?_) ?_ ?_ ?_ ?_ ⟨hready,?_⟩ ⟨fun ev => ?_,?_⟩
 · exact (happ.queue r hr).trans (congrFun hs1.1 r)
 · rw [← hs1.2.1,← happ.rest.1]
   exact pc_setPc_of_ne s2 .idle hu
 · exact (happ.next ev hlist).trans (hnext ev (hevents ▸ hcall))
 · refine h.custody_enq q hevents ?_ (happ.rest.2.1.trans hs1.2.2.1)
   rw [← hs1.2.1,← happ.rest.1]
   rfl
 · rw [update_self]
   exact happ.linked
 · rw [update_self]
   exact happ.tail
 · have hidle : ((s2.return_ t r).pc t) = .idle := pc_setPc s2 t .idle
   rw [hidle]
   trivial
 · rw [← (h.plain q).2,← hs1.1]
   exact happ.entry.2
 · rw [← h.unordered.1 ev,← horigin]
   exact happ.origin ev
 · exact happ.rest.2.2.trans hs1.2.2.2

lemma dequeue (hidle : s.pc t = .idle) (evs : List Event) (hlist : lists q = evs++rest)
 {s1 : State κ τ} (hu : Unlinks s s1 evs) {head : Option Event}
 (hlinked : Linked some s1.next head rest none) (r : Ret) :
 Inv (((s1.setHead q head).setOwned evs true).return_ t r) (Function.update lists q rest) := by
 have hentry : (((s1.setHead q head).setOwned evs true).return_ t r).queue q =
  { s.queue q with head := head,tail := if head = none then none else (s.queue q).tail } := by
  rw [← hu.rest.1]
  exact update_self ..
 have hpc : (((s1.setHead q head).setOwned evs true).return_ t r).pc = s.pc := by
  rw [← hu.rest.2.1] at hidle ⊢
  exact pc_return hidle r
 refine h.update t q (fun r hr => ?_) (fun r hr => update_of_ne hr ..) (fun u _ => congrFun hpc u)
  (fun ev hev _ => ?_) ?_ ?_ ?_ ?_ ?_ ⟨fun ev => ?_,hu.rest.2.2.2⟩
 · exact (update_of_ne hr ..).trans (congrFun hu.rest.1 r)
 · refine (hu.next ev).trans (if_neg fun hmem => hev ?_)
   rw [hlist]
   exact mem_append_left rest hmem
 · refine h.custody_deq hlist hpc ?_
   rw [← hu.rest.2.2.1]
   rfl
 · rw [hentry,update_self]
   exact hlinked
 · rw [hentry,update_self]
   cases rest with
   | nil =>
    obtain rfl : head = none := hlinked
    rfl
   | cons x rest =>
    obtain ⟨rfl,-⟩ := hlinked
    show (s.queue q).tail = (x::rest).getLast?
    rw [h.represents.tail,hlist,getLast?_append_of_ne_nil _ (cons_ne_nil x rest)]
 · rw [hpc]
   refine (h.calls t).congr fun ev hev => ?_
   rw [hidle] at hev
   cases hev
 · rw [hentry]
   exact h.plain q
 · exact hu.origin ev (h.unordered.1 ev)

end

-- The calls

/-- What a step has to do: `lists` become `lists'`, and the call returns. -/
def Does (s : State κ τ) (t : τ) (lists : κ → List Event) (r : Ret) (removed : List Event) : Prop :=
 Inv s lists ∧ s.ret t = some r ∧ ∀ ev ∈ removed, s.next ev = none

lemma take_num (evs : List Event) :
 evs.take (min evs.length queueMultiMax) = evs.take queueMultiMax :=
 take_eq_take_iff.mpr (by omega)

lemma call_enq (h : Inv s lists) (hidle : s.pc t = .idle) (howned : s.owned ev = true) :
 ∃ s', s.call (.enq t q ev) = some s' ∧ Inv s' lists := by
 refine ⟨(s.setOwned [ev] false).setPc t (.enq q ev),?_,?_⟩
 · simp only [State.call,h.getQueueOrder]
 · refine h.call hidle (.enq q ev) trivial (nodup_singleton ev) fun x hx => ?_
   rw [mem_singleton.mp hx]
   exact howned

lemma call_enqMulti (h : Inv s lists) (hidle : s.pc t = .idle) (hne : evs ≠ [])
 (hnodup : (evs.take queueMultiMax).Nodup)
 (howned : ∀ ev ∈ evs.take queueMultiMax, s.owned ev = true) :
 ∃ s', s.call (.enqMulti t q evs) = some s' ∧ Inv s' lists := by
 have hpos : 0 < min evs.length queueMultiMax := Nat.lt_min.mpr ⟨length_pos_iff.mpr hne,by decide⟩
 rw [← take_num] at hnodup howned
 refine ⟨(s.setOwned (evs.take (min evs.length queueMultiMax)) false).setPc t
  (.chain q evs (min evs.length queueMultiMax) 0),?_,?_⟩
 · simp only [State.call,if_neg hpos.ne']
 · exact h.call hidle (.chain q evs (min evs.length queueMultiMax) 0) ⟨rfl,hpos,rfl⟩ hnodup howned

lemma queueEnq (h : Inv s lists) (hpc : s.pc t = .enq q ev) :
 ∃ s', s.queueEnq t q ev = some s' ∧ Does s' t (Op.apply lists (.enq q ev)) (.enq 0) [] := by
 have hevents : (s.pc t).events = [ev] := by
  rw [hpc]
  rfl
 have hev : ev ∉ lists q := by
  refine h.notMem_list (p := .call t) ?_ nofun
  rw [eventAt,hevents]
  simp
 have hlinked : Linked some (s.setNext ev none).next (some ev) [ev] none := by
  rw [next_setNext]
  exact ⟨rfl,update_self ..⟩
 have hlist : Linked some (s.setNext ev none).next (s.queue q).head (lists q) none := by
  rw [next_setNext]
  exact (h.represents.linked q).update_of_notMem hev none
 have hlast : [ev].getLast? = some ev := rfl
 obtain ⟨s2,happend,happ⟩ := exists_appends hlist (h.represents.tail q) hlinked hlast
  (h.nodup q) fun x hx hmem => hev (mem_singleton.mp hmem ▸ hx)
 refine ⟨(s2.wake q).return_ t (.enq 0),?_,?_,ret_return ..,nofun⟩
 · rw [State.queueEnq,if_neg (h.not_bad q),happend,map_some]
 · refine h.enqueue hevents (s.setNext ev none) ⟨rfl,rfl,rfl,rfl⟩ (fun x hx => ?_)
    (fun x => originQe_setNext s ev x none) happ _
   rw [next_setNext,update_of_ne]
   exact fun heq => hx (mem_singleton.mpr heq)

lemma chained_succ {next : Event → Option Event} (hi : i < evs.length)
 (hlinked : Linked some next evs[0]? (evs.take i) evs[i]?) (hnodup : (evs.take (i+1)).Nodup)
 (v : Option Event) : Linked some (Function.update next evs[i] v) evs[0]? (evs.take (i+1)) v := by
 rw [take_succ_eq_append_getElem hi] at hnodup ⊢
 rw [getElem?_eq_getElem hi] at hlinked
 refine hlinked.snoc fun hmem => ?_
 exact (nodup_append.mp hnodup).2.2 _ hmem _ (mem_singleton_self _) rfl

lemma chain (h : Inv s lists) (hpc : s.pc t = .chain q evs num i) :
 ∃ s', s.chain t q evs num i = some s' ∧ Inv s' lists := by
 have hcall := h.calls t
 have hnodup := h.call_nodup t
 have hevents : (s.pc t).events = evs.take num := by
  rw [hpc]
  rfl
 rw [hevents] at hnodup
 rw [hpc] at hcall
 obtain ⟨hnum,hi,hlinked⟩ := hcall
 have hmem : ∀ j, (hj : j < num) → evs[j] ∈ (s.pc t).events := by
  intro j hj
  rw [hevents]
  exact mem_take_iff_getElem.mpr ⟨j,by omega,rfl⟩
 have hsucc := fun v => chained_succ (by omega) hlinked
  (hnodup.sublist (take_sublist_take_left hi)) v
 rw [State.chain]
 split
 · refine ⟨(s.setNext evs[i] evs[i+1]?).setPc t (.chain q evs num (i+1)),?_,?_⟩
   · rw [getElem?_eq_getElem (i := i) (by omega),map_some]
   · exact h.write (hmem i hi) _ hevents.symm ⟨hnum,by omega,hsucc _⟩
 · -- the last one
   obtain rfl : i = num-1 := by omega
   have horder : (s.setNext evs[num-1] none).getQueueOrder t evs[0] = none := by
    rw [State.getQueueOrder,originQe_setNext]
    exact h.getQueueOrder t evs[0]
   refine ⟨(s.setNext evs[num-1] none).setPc t (.enqMulti q evs num),?_,?_⟩
   · rw [getElem?_eq_getElem (by omega),bind_some,getElem?_eq_getElem (by omega),bind_some]
     simp only [horder]
   · refine h.write (hmem (num-1) hi) none hevents.symm ⟨hnum,by omega,?_⟩
     have hlast := hsucc none
     rwa [Nat.sub_add_cancel (by omega)] at hlast

lemma queueEnqMulti (h : Inv s lists) (hpc : s.pc t = .enqMulti q evs num) :
 ∃ s', s.queueEnqMulti t q evs num = some s' ∧
  Does s' t (Op.apply lists (.enqMulti q evs)) (.enq (min evs.length queueMultiMax : Nat)) [] := by
 have hcall := h.calls t
 have hevents : (s.pc t).events = evs.take num := by
  rw [hpc]
  rfl
 rw [hpc] at hcall
 obtain ⟨hnum,hpos,hlinked⟩ := hcall
 have hlast : (evs.take num).getLast? = some evs[num-1] := by
  rw [getLast?_take,if_neg hpos.ne',getElem?_eq_getElem (by omega),some_or]
 rw [getElem?_eq_getElem (by omega)] at hlinked
 obtain ⟨s2,happend,happ⟩ :=
  exists_appends (h.represents.linked q) (h.represents.tail q) hlinked hlast
  (h.nodup q) fun x hx hmem => by
   refine h.notMem_list (p := .call t) ?_ nofun hx
   rw [eventAt,hevents]
   exact (count_pos_iff.mpr hmem).ne'
 refine ⟨(s2.wake q).return_ t (.enq num),?_,?_,?_,nofun⟩
 · rw [State.queueEnqMulti,if_neg (h.not_bad q),getElem?_eq_getElem (by omega),bind_some,
    getElem?_eq_getElem (by omega),bind_some,happend,map_some]
 · have hdone :=
    h.enqueue hevents s ⟨rfl,rfl,rfl,rfl⟩ (fun _ _ => rfl) (fun _ => rfl) happ (.enq num)
   rw [hnum,take_num] at hdone
   rw [hnum]
   exact hdone
 · rw [ret_return,hnum]

lemma queueDeq (h : Inv s lists) (hidle : s.pc t = .idle) :
 Does (s.queueDeq t q) t (Op.apply lists (.deq q)) (.deq (lists q).head?) ((lists q).take 1) := by
 have hlinked := h.represents.linked q
 cases hlist : lists q with
 | nil =>
  rw [hlist] at hlinked
  have hhead : (s.queue q).head = none := hlinked
  have hsame : Op.apply lists (.deq q) = lists := by
   rw [Op.apply,hlist,tail_nil,← hlist,update_eq_self]
  simp only [State.queueDeq,hhead]
  rw [hsame,sleep_eq (h.plain q).1]
  exact ⟨h.return_ hidle _,ret_return ..,nofun⟩
 | cons ev rest =>
  rw [hlist] at hlinked
  obtain ⟨hhead,hrest⟩ := hlinked
  have hu := unlinks_unlink (h.plain q).2 ev
  have hnot : ev ∉ rest := by
   have hnodup := h.nodup q
   rw [hlist] at hnodup
   exact (nodup_cons.mp hnodup).1
  have hkept : Linked some (s.unlink q ev).next (s.next ev) rest none := by
   refine hrest.congr fun x hx => (hu.next x).trans (if_neg fun hmem => ?_)
   exact hnot (mem_singleton.mp hmem ▸ hx)
  simp only [State.queueDeq,hhead]
  have happly : Op.apply lists (.deq q) = Function.update lists q rest := by
   rw [Op.apply,hlist,tail_cons]
  rw [happly]
  refine ⟨h.dequeue hidle [ev] hlist hu hkept _,ret_return ..,fun x hx => ?_⟩
  exact (hu.next x).trans (if_pos hx)

lemma queueDeqMulti (h : Inv s lists) (hidle : s.pc t = .idle) (num : Int) :
 Does (s.queueDeqMulti t q (min num queueMultiMax)) t (Op.apply lists (.deqMulti q num))
  (Op.ret lists (.deqMulti q num)) ((lists q).take (Op.limit num)) := by
 have hlinked := h.represents.linked q
 rw [State.queueDeqMulti,if_neg (h.not_bad q)]
 cases hlist : lists q with
 | nil =>
  rw [hlist] at hlinked
  have hhead : (s.queue q).head = none := hlinked
  have hsame : Op.apply lists (.deqMulti q num) = lists := by
   rw [Op.apply,hlist,drop_nil,← hlist,update_eq_self]
  have hret : Op.ret lists (.deqMulti q num) = .deqMulti 0 [] := by
   rw [Op.ret,hlist,take_nil]
   rfl
  simp only [hhead]
  rw [hsame,hret,sleep_eq (h.plain q).1]
  refine ⟨h.return_ hidle _,ret_return ..,fun ev hev => ?_⟩
  rw [take_nil] at hev
  cases hev
 | cons ev list =>
  rw [hlist] at hlinked
  have hhead : (s.queue q).head = some ev := hlinked.1
  obtain ⟨s1,head,hloop,hu,hrest⟩ :=
   deqLoop_spec (h.plain q).2 hlinked (hlist ▸ h.nodup q) (Op.limit num)
  rw [hhead] at hloop
  have hlimit : (min num queueMultiMax).toNat = Op.limit num := rfl
  simp only [hhead,hlimit,hloop]
  have happly : Op.apply lists (.deqMulti q num) =
   Function.update lists q ((ev::list).drop (Op.limit num)) := by
   rw [Op.apply,hlist]
  have hsplit : lists q = (ev::list).take (Op.limit num)++(ev::list).drop (Op.limit num) := by
   rw [take_append_drop,hlist]
  rw [happly,Op.ret,hlist]
  exact ⟨h.dequeue hidle _ hsplit hu hrest _,ret_return ..,fun x hx => (hu.next x).trans
   (if_pos hx)⟩

end Inv

-- Whole runs

/-- A step is taken, and the operation that takes effect in it, if any, does on the lists what it
returns. -/
def Simulated (s : State κ τ) (lists : κ → List Event) (a : Action κ τ) : Prop :=
 ∃ s', PlainQueue.step s a = some s' ∧ Inv s' (((effect s a).map (Op.apply lists)).getD lists) ∧
  ∀ op, effect s a = some op → s'.ret a.thread = some (op.ret lists) ∧
   ∀ ev ∈ op.removed lists, (s'.hdr ev).next = none

lemma Inv.step {a : Action κ τ} (h : Inv s lists) (hok : CallerOk s a) (henabled : Enabled s a) :
 Simulated s lists a := by
 -- an operation takes effect
 have heffect : ∀ {s' : State κ τ} {t op}, Does s' t (Op.apply lists op) (op.ret lists)
  (op.removed lists) →
  Inv s' (((some op).map (Op.apply lists)).getD lists) ∧ ∀ op', some op = some op' →
   s'.ret t = some (op'.ret lists) ∧ ∀ ev ∈ op'.removed lists, (s'.hdr ev).next = none := by
  rintro s' t op ⟨hinv,hdone⟩
  refine ⟨hinv,fun op' hop => ?_⟩
  cases hop
  exact hdone
 cases a
 case step t =>
  cases hpc : s.pc t
  all_goals simp only [Simulated,PlainQueue.step,effect,Action.thread,hpc]
  case idle => exact absurd hpc henabled
  case enq q ev =>
   obtain ⟨s',hstep,hdoes⟩ := h.queueEnq hpc
   exact ⟨s',hstep,heffect hdoes⟩
  case chain q evs num i =>
   obtain ⟨s',hstep,hinv⟩ := h.chain hpc
   exact ⟨s',hstep,hinv,nofun⟩
  case enqMulti q evs num =>
   obtain ⟨s',hstep,hdoes⟩ := h.queueEnqMulti hpc
   exact ⟨s',hstep,heffect hdoes⟩
 all_goals
  simp only [Enabled,Action.thread] at henabled
  simp only [Simulated,PlainQueue.step,effect,Action.thread,henabled]
 case enq t q ev =>
  obtain ⟨s',hcall,hinv⟩ := h.call_enq henabled hok
  exact ⟨s',hcall,hinv,nofun⟩
 case enqMulti t q evs =>
  cases evs with
  | nil =>
   have hsame : Op.apply lists (.enqMulti q []) = lists := by
    rw [Op.apply,take_nil,append_nil,update_eq_self]
   have hdoes : Does (s.return_ t (.enq 0)) t (Op.apply lists (.enqMulti q [])) (.enq 0) [] := by
    refine ⟨?_,ret_return ..,nofun⟩
    rw [hsame]
    exact h.return_ henabled _
   exact ⟨_,rfl,heffect hdoes⟩
  | cons ev evs =>
   obtain ⟨s',hcall,hinv⟩ := h.call_enqMulti henabled (cons_ne_nil ev evs) hok.1 hok.2
   exact ⟨s',hcall,hinv,nofun⟩
 case deq t q => exact ⟨s.queueDeq t q,rfl,heffect (h.queueDeq henabled)⟩
 case deqMulti t q num => exact ⟨_,rfl,heffect (h.queueDeqMulti henabled num)⟩

lemma enabled_of_step {a : Action κ τ} (h : step s a = some s') : Enabled s a := by
 cases hpc : s.pc a.thread with
 | idle =>
  cases a with
  | step t =>
   simp only [step,hpc] at h
   cases h
  | enq t q ev | enqMulti t q evs | deq t q | deqMulti t q num => exact hpc
 | enq q ev | chain q evs num i | enqMulti q evs num =>
  cases a with
  | step t =>
   have hpc' : s.pc t = _ := hpc
   show s.pc t ≠ .idle
   rw [hpc']
   nofun
  | enq t q ev | enqMulti t q evs | deq t q | deqMulti t q num =>
   simp only [step,hpc] at h
   cases h

lemma inv_init (h : Init s) (hlists : ∀ q, lists q = []) : Inv s lists := by
 obtain ⟨hqueue,hevent,hthread⟩ := h
 refine ⟨⟨fun q => ?_,fun q => ?_⟩,⟨fun _ => .application,fun p ev => ?_⟩,fun t => ?_,
  fun q => ⟨(hqueue q).1,(hqueue q).2.1⟩,fun ev => (hevent ev).1,fun t => (hthread t).2⟩
 · rw [hlists]
   exact (hqueue q).2.2.1
 · rw [hlists]
   exact (hqueue q).2.2.2
 · cases p with
   | application => simp [hevent]
   | list q => simp [hlists]
   | call t => simp [hthread]
 · rw [(hthread t).1]
   trivial

lemma inv_of_reachable (hr : Reachable (s,lists)) : Inv s lists := by
 refine hr.invariant (P := fun x => Inv x.1 x.2)
  (fun x hx => inv_init hx.1 hx.2) fun x a x' hinv hok hstep => ?_
 obtain ⟨s1,hs1,rfl⟩ := map_eq_some_iff.mp hstep
 obtain ⟨s2,hs2,hinv2,-⟩ := hinv.step hok (enabled_of_step hs1)
 obtain rfl := some.inj (hs1.symm.trans hs2)
 exact hinv2

/-- The queues represent the lists on which the operations took effect. No step reads through
`NULL`; an operation that takes effect returns what it returns on the lists, and the events it
removes are linked to nothing. -/
theorem plain_queues_are_lists (hr : Reachable (s,lists)) : Represents s lists ∧
 ∀ a, CallerOk s a → Enabled s a → ∃ s', step s a = some s' ∧
  ∀ op, effect s a = some op → s'.ret a.thread = some (op.ret lists) ∧
   ∀ ev ∈ op.removed lists, (s'.hdr ev).next = none := by
 have hinv := inv_of_reachable hr
 refine ⟨hinv.represents,fun a hok henabled => ?_⟩
 obtain ⟨s',hstep,-,hspec⟩ := hinv.step hok henabled
 exact ⟨s',hstep,hspec⟩

/-- One queue and two threads. -/
def demo : State (Fin 1) (Fin 2) where
 queue _ := ⟨.ready,false,none,none,0⟩
 hdr _ := ⟨none,none,0⟩
 originQe _ := none
 pc _ := .idle
 ret _ := none
 owned _ := true

theorem plain_queues_are_lists_demo : ∃ (s : State (Fin 1) (Fin 2)) (lists : Fin 1 → List Event),
 Reachable (s,lists) ∧ lists 0 = [14,11,12,13] ∧ Represents s lists ∧
 ∃ s', step s (.deqMulti 1 0 2) = some s' ∧ s'.ret 1 = some (.deqMulti 2 [14,11]) := by
 have hstart : Reachable (demo,fun _ => []) :=
  .start ⟨⟨fun _ => ⟨rfl,rfl,rfl,rfl⟩,fun _ => ⟨rfl,rfl⟩,fun _ => ⟨rfl,rfl⟩⟩,fun _ => rfl⟩
 obtain ⟨⟨s,lists⟩,hr,hlist,hidle⟩ := hstart.exists_of_run
  [.enqMulti 0 0 [11,12,13],.step 0,.enq 1 0 14,.step 0,.step 1,.step 0,.step 0]
  (fun x => x.2 0 = [14,11,12,13] ∧ x.1.pc 1 = .idle) (by decide)
 have hlist : lists 0 = [14,11,12,13] := hlist
 have hidle : s.pc 1 = .idle := hidle
 obtain ⟨hrep,hsteps⟩ := plain_queues_are_lists hr
 obtain ⟨s',hstep,hspec⟩ := hsteps (.deqMulti 1 0 2) trivial hidle
 have heffect : effect s (.deqMulti 1 0 2) = some (.deqMulti 0 2) := by
  simp only [effect,Action.thread,hidle]
 refine ⟨s,lists,hr,hlist,hrep,s',hstep,(hspec _ heffect).1.trans ?_⟩
 rw [Op.ret,hlist]
 rfl

end Packages.PlainQueue
