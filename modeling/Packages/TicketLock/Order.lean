import Packages.TicketLock.Model

/-!
# Exclusion and order of the ticket lock

The tickets that were taken are those of the threads that got the lock, followed by those of the
waiting threads. `cur_ticket` counts the releases. Fewer than `2 ^ 32` threads are in line, so their
tickets never collide, although they wrap around.
-/

namespace Packages.TicketLock

open Function List Option Transition
open State (init step pc)

variable {n : Nat} {s s' : State n} {t : Fin n} {holder : Option (Fin n)} {waiting : List (Fin n)}
variable {released : Nat} {pc : Pc}

-- Threads in line

/-- What a thread at this point knows. -/
def Fits (s : State n) (released : Nat) (holder : Option (Fin n)) (waiting : List (Fin n))
 (t : Fin n) : Pc → Prop
 | .idle | .fetchInc | .loadNext => True
 | .spin ticket => ∀ i, waiting[i]? = some t → ticket = (s.acquired.length+i)%2^32
 | .loadCur next => next = s.loadedAt t%2^32 ∧ s.loadedAt t ≤ s.taken.length
 -- until somebody takes a ticket the lock stays free
 | .cas next => (next = s.loadedAt t%2^32 ∧ s.loadedAt t ≤ s.taken.length) ∧
  (s.loadedAt t = s.taken.length → holder = none ∧ waiting = [])
 | .unlockLoad => holder = some t
 | .unlockStore cur => holder = some t ∧ cur = released%2^32

structure Inv (s : State n) (released : Nat) (holder : Option (Fin n))
 (waiting : List (Fin n)) : Prop where
 taken : s.taken = s.acquired++waiting
 acquired : s.acquired.length = released+holder.toList.length
 next : s.lock.nextTicket = s.taken.length%2^32
 cur : s.lock.curTicket = released%2^32
 nodup : waiting.Nodup
 waits : ∀ t, t ∈ waiting ↔ (s.pc t).waits = true
 holds : ∀ t, s.holds t = true ↔ holder = some t
 threads : ∀ t, Fits s released holder waiting t (s.pc t)

lemma inv_init : Inv (init : State n) 0 none [] where
 taken := rfl
 acquired := rfl
 next := rfl
 cur := rfl
 nodup := nodup_nil
 waits _ := iff_of_false not_mem_nil nofun
 holds _ := iff_of_false nofun nofun
 threads _ := trivial

namespace Inv

section

variable (h : Inv s released holder waiting)

include h

lemma length_taken : s.taken.length = released+holder.toList.length+waiting.length := by
 rw [h.taken,length_append,h.acquired]

lemma waiting_le : waiting.length ≤ n :=
 h.nodup.length_le_card.trans_eq (Fintype.card_fin n)

lemma waiting_lt (ht : (s.pc t).waits = false) : waiting.length < n := by
 have hnot : t ∉ waiting := by
  rw [h.waits,ht]
  nofun
 have hcons := (nodup_cons.mpr ⟨hnot,h.nodup⟩).length_le_card
 rw [Fintype.card_fin] at hcons
 exact hcons

lemma eq_holder {u : Fin n} (ht : s.holds t = true) (hu : s.holds u = true) : t = u :=
 some.inj (((h.holds t).mp ht).symm.trans ((h.holds u).mp hu))

end

end Inv

lemma toList_length_le (holder : Option (Fin n)) : holder.toList.length ≤ 1 := by
 cases holder with
 | none => exact Nat.zero_le 1
 | some t => exact le_rfl

-- Steps

section

variable (h : Inv s released holder waiting)

include h

lemma Inv.goto (hbefore : (s.pc t).waits = false)
 (hafter : pc.waits = false) (hfits : Fits s released holder waiting t pc) :
 Inv (s.goto t pc) released holder waiting := by
 have hself : (s.goto t pc).pc t = pc := update_self ..
 have hother : ∀ u, u ≠ t → (s.goto t pc).pc u = s.pc u := fun u hu => update_of_ne hu ..
 refine { h with waits := fun u => ?_, threads := fun u => ?_ }
 · by_cases heq : u = t
   · rw [heq,hself,h.waits,hbefore,hafter]
   · rw [hother u heq,h.waits]
 · by_cases heq : u = t
   · rw [heq,hself]
     exact hfits
   · rw [hother u heq]
     exact h.threads u

lemma Inv.loadNext (hpc : s.pc t = .loadNext) :
 Inv { s.goto t (.loadCur s.lock.nextTicket) with
  loadedAt := update s.loadedAt t s.taken.length } released holder waiting := by
 have hload : Inv { s with loadedAt := update s.loadedAt t s.taken.length } released holder
  waiting := by
  refine { h with threads := fun u => ?_ }
  have hu := h.threads u
  by_cases heq : u = t
  · rw [heq]
    show Fits _ _ _ _ t (s.pc t)
    rw [hpc]
    trivial
  · have hsame : update s.loadedAt t s.taken.length u = s.loadedAt u := update_of_ne heq ..
    unfold Fits at hu ⊢
    simp only [hsame]
    exact hu
 refine hload.goto (by rw [show pc _ t = _ from hpc]; rfl) rfl ⟨?_,?_⟩
 · show _ = update s.loadedAt t s.taken.length t%2^32
   rw [update_self,h.next]
 · show update s.loadedAt t s.taken.length t ≤ s.taken.length
   rw [update_self]

lemma Inv.loadCur (hn : n < 2^32) {next : Nat}
 (hpc : s.pc t = .loadCur next) :
 Inv (s.goto t (if next = s.lock.curTicket then .cas next else .idle)) released holder waiting := by
 have hwaits : (s.pc t).waits = false := by rw [hpc]; rfl
 have hfits := h.threads t
 rw [hpc] at hfits
 split
 · next heq =>
   refine h.goto hwaits rfl ⟨hfits,fun hlast => ?_⟩
   have hlen := h.length_taken
   have hroom := h.waiting_lt hwaits
   have hone := toList_length_le holder
   -- all tickets up to the one that was loaded are released
   have hreleased : s.taken.length = released := by
    refine eq_of_mod32 ?_ (by omega) (by omega)
    rw [← hlast,← hfits.1,heq,h.cur]
   have hnone : holder.toList = [] := length_eq_zero_iff.mp (by omega)
   exact ⟨toList_eq_nil_iff.mp hnone,length_eq_zero_iff.mp (by omega)⟩
 · exact h.goto hwaits rfl trivial

lemma Inv.fetchInc (hpc : s.pc t = .fetchInc) :
 Inv ((s.take t).goto t (.spin s.lock.nextTicket)) released holder (waiting++[t]) := by
 have hnot : t ∉ waiting := by
  rw [h.waits,hpc]
  nofun
 have hself : ((s.take t).goto t (.spin s.lock.nextTicket)).pc t = .spin s.lock.nextTicket :=
  update_self ..
 have hother : ∀ u, u ≠ t → ((s.take t).goto t (.spin s.lock.nextTicket)).pc u = s.pc u :=
  fun u hu => update_of_ne hu ..
 refine ⟨?_,h.acquired,?_,h.cur,?_,fun u => ?_,h.holds,fun u => ?_⟩
 · show s.taken++[t] = s.acquired++(waiting++[t])
   rw [h.taken,append_assoc]
 · show add32 s.lock.nextTicket 1 = (s.taken++[t]).length%2^32
   rw [h.next,add32_mod,length_append]
   rfl
 · exact nodup_append.mpr ⟨h.nodup,nodup_singleton t,fun u hu v hv heq =>
    hnot (mem_singleton.mp hv ▸ heq ▸ hu)⟩
 · rw [mem_append,mem_singleton]
   by_cases heq : u = t
   · rw [heq,hself]
     exact iff_of_true (.inr rfl) rfl
   · rw [hother u heq,← h.waits]
     exact or_iff_left heq
 · by_cases heq : u = t
   · rw [heq,hself]
     intro i hi
     -- the thread is only at the end of the line
     have hlast : i = waiting.length := by
      by_contra hne
      have hlt : i < waiting.length := by
       have := (List.getElem?_eq_some_iff.mp hi).1
       rw [List.length_append,List.length_singleton] at this
       omega
      rw [List.getElem?_append_left hlt] at hi
      exact hnot (mem_of_getElem? hi)
     rw [hlast,h.next,h.taken,length_append]
     rfl
   · rw [hother u heq]
     have hu := h.threads u
     cases hpcu : s.pc u with
     | idle | fetchInc | loadNext => trivial
     | unlockLoad | unlockStore => rwa [hpcu] at hu
     | spin ticket =>
      rw [hpcu] at hu
      intro i hi
      refine hu i ?_
      have hlt : i < waiting.length := by
       by_contra hge
       rw [getElem?_append_right (Nat.le_of_not_lt hge)] at hi
       exact heq (mem_singleton.mp (mem_of_getElem? hi))
      rwa [getElem?_append_left hlt] at hi
     | loadCur next =>
      rw [hpcu] at hu
      exact ⟨hu.1,hu.2.trans (length_append ▸ Nat.le_add_right _ _)⟩
     | cas next =>
      rw [hpcu] at hu
      obtain ⟨⟨hnext,hle⟩,-⟩ := hu
      refine ⟨⟨hnext,hle.trans (length_append ▸ Nat.le_add_right _ _)⟩,fun hlast => ?_⟩
      change s.loadedAt u = (s.taken++[t]).length at hlast
      rw [length_append,length_singleton] at hlast
      omega

lemma Inv.spin (hn : n < 2^32) {ticket : Nat}
 (hpc : s.pc t = .spin ticket) (hturn : ticket = s.lock.curTicket) :
 holder = none ∧ ∃ rest, waiting = t::rest := by
 have hmem : t ∈ waiting := by
  rw [h.waits,hpc]
  rfl
 obtain ⟨i,hi⟩ := List.mem_iff_getElem?.mp hmem
 have hlt := (List.getElem?_eq_some_iff.mp hi).1
 have hle := h.waiting_le
 have hone := toList_length_le holder
 have hlen := h.acquired
 have hticket : ticket = (s.acquired.length+i)%2^32 := by
  have hfits := h.threads t
  rw [hpc] at hfits
  exact hfits i hi
 -- the thread is the first of those in line
 have hfirst : s.acquired.length+i = released := by
  refine eq_of_mod32 ?_ (by omega) (by omega)
  rw [← hticket,hturn,h.cur]
 refine ⟨toList_eq_nil_iff.mp (length_eq_zero_iff.mp (by omega)),?_⟩
 obtain rfl : i = 0 := by omega
 cases waiting with
 | nil => cases hi
 | cons u rest => exact ⟨rest,by rw [some.inj hi]⟩

end

lemma Inv.acquire {rest : List (Fin n)} (h : Inv s released none (t::rest)) :
 Inv (s.acquire t) released (some t) rest := by
 have hself : (s.acquire t).pc t = .idle := update_self ..
 have hother : ∀ u, u ≠ t → (s.acquire t).pc u = s.pc u := fun u hu => update_of_ne hu ..
 obtain ⟨hnot,hnodup⟩ := nodup_cons.mp h.nodup
 have hlen : (s.acquired++[t]).length = s.acquired.length+1 := length_append
 refine ⟨?_,?_,h.next,h.cur,hnodup,fun u => ?_,fun u => ?_,fun u => ?_⟩
 · show s.taken = s.acquired++[t]++rest
   rw [h.taken,append_assoc]
   rfl
 · show (s.acquired++[t]).length = released+1
   rw [hlen,h.acquired]
   rfl
 · by_cases heq : u = t
   · rw [heq,hself]
     exact iff_of_false hnot nofun
   · rw [hother u heq,← h.waits,mem_cons]
     exact (or_iff_right heq).symm
 · show update s.holds t true u = true ↔ _
   by_cases heq : u = t
   · rw [heq,update_self]
     exact iff_of_true rfl rfl
   · rw [update_of_ne heq,h.holds]
     exact iff_of_false nofun fun hsome => heq (some.inj hsome).symm
 · by_cases heq : u = t
   · rw [heq,hself]
     trivial
   · rw [hother u heq]
     have hu := h.threads u
     cases hpcu : s.pc u with
     | idle | fetchInc | loadNext => trivial
     | unlockLoad =>
      rw [hpcu] at hu
      cases hu
     | unlockStore cur =>
      rw [hpcu] at hu
      cases hu.1
     | spin ticket =>
      rw [hpcu] at hu
      intro i hi
      rw [hu (i+1) hi]
      show _ = ((s.acquired++[t]).length+i)%2^32
      rw [hlen,add_right_comm,add_assoc]
     | loadCur next =>
      rw [hpcu] at hu
      exact hu
     | cas next =>
      rw [hpcu] at hu
      exact ⟨hu.1,fun hlast => nomatch (hu.2 hlast).2⟩

lemma Inv.release {cur : Nat} (h : Inv s released holder waiting)
 (hpc : s.pc t = .unlockStore cur) : Inv (s.release t cur) (released+1) none waiting := by
 have hfits := h.threads t
 rw [hpc] at hfits
 obtain ⟨rfl,hcur⟩ := hfits
 have hself : (s.release t cur).pc t = .idle := update_self ..
 have hother : ∀ u, u ≠ t → (s.release t cur).pc u = s.pc u := fun u hu => update_of_ne hu ..
 refine ⟨h.taken,h.acquired,h.next,?_,h.nodup,fun u => ?_,fun u => ?_,fun u => ?_⟩
 · show add32 cur 1 = (released+1)%2^32
   rw [hcur,add32_mod]
 · by_cases heq : u = t
   · rw [heq,hself,h.waits,hpc]
     rfl
   · rw [hother u heq,h.waits]
 · show update s.holds t false u = true ↔ _
   by_cases heq : u = t
   · rw [heq,update_self]
     exact iff_of_false nofun nofun
   · rw [update_of_ne heq,h.holds]
     exact iff_of_false (fun hsome => heq (some.inj hsome).symm) nofun
 · by_cases heq : u = t
   · rw [heq,hself]
     trivial
   · rw [hother u heq]
     have hu := h.threads u
     cases hpcu : s.pc u with
     | idle | fetchInc | loadNext => trivial
     | unlockLoad =>
      rw [hpcu] at hu
      exact absurd (some.inj hu).symm heq
     | unlockStore cur' =>
      rw [hpcu] at hu
      exact absurd (some.inj hu.1).symm heq
     | spin ticket | loadCur next =>
      rw [hpcu] at hu
      exact hu
     | cas next =>
      rw [hpcu] at hu
      exact ⟨hu.1,fun hlast => nomatch (hu.2 hlast).1⟩

lemma Inv.cas {next : Nat} (h : Inv s released holder waiting) (hpc : s.pc t = .cas next)
 (htimely : s.taken.length < s.loadedAt t+2^32) (hsame : s.lock.nextTicket = next) :
 holder = none ∧ waiting = [] := by
 have hfits := h.threads t
 rw [hpc] at hfits
 obtain ⟨⟨hnext,hle⟩,hfree⟩ := hfits
 refine hfree (eq_of_mod32 ?_ hle htimely).symm
 rw [← h.next,hsame,hnext]

/-- Taking a ticket and getting the lock at once is taking a ticket and getting the lock at the next
turn. -/
lemma Inv.trylock {next : Nat} (h : Inv s released none []) (hpc : s.pc t = .cas next) :
 Inv ((s.take t).acquire t) released (some t) [] := by
 have hwaits : (s.pc t).waits = false := by rw [hpc]; rfl
 have hfetch : Inv (s.goto t .fetchInc) released none [] := h.goto hwaits rfl trivial
 have hacquire := (hfetch.fetchInc (update_self ..)).acquire
 have hsame : (((s.goto t .fetchInc).take t).goto t (.spin s.lock.nextTicket)).acquire t =
  (s.take t).acquire t := by
  simp only [State.acquire,State.goto,State.take,update_idem]
 exact hsame ▸ hacquire

lemma Inv.step {a : Fin n × Action} (h : Inv s released holder waiting) (hn : n < 2^32)
 (htimely : Timely s a) (hstep : s.step a = some s') :
 ∃ released' holder' waiting', Inv s' released' holder' waiting' := by
 obtain ⟨t,action⟩ := a
 cases action with
 | lock | trylock =>
  simp only [State.step] at hstep
  split at hstep
  · next hidle =>
    cases hstep
    exact ⟨_,_,_,h.goto (by rw [hidle]; rfl) rfl trivial⟩
  · cases hstep
 | unlock =>
  simp only [State.step] at hstep
  split at hstep
  · next hidle =>
    cases hstep
    exact ⟨_,_,_,h.goto (by rw [hidle.1]; rfl) rfl ((h.holds t).mp hidle.2)⟩
  · cases hstep
 | next =>
  simp only [State.step,State.next] at hstep
  split at hstep
  · next hpc =>
    cases hstep
    exact ⟨_,_,_,h.fetchInc hpc⟩
  · next ticket hpc =>
    cases hstep
    split
    · exact ⟨_,_,_,h⟩
    · next hturn =>
      obtain ⟨rfl,rest,rfl⟩ := h.spin hn hpc (not_not.mp hturn)
      exact ⟨_,_,_,h.acquire⟩
  · next hpc =>
    cases hstep
    exact ⟨_,_,_,h.loadNext hpc⟩
  · next next hpc =>
    cases hstep
    exact ⟨_,_,_,h.loadCur hn hpc⟩
  · next next hpc =>
    cases hstep
    have hlate : s.taken.length < s.loadedAt t+2^32 := by
     rw [Timely,hpc] at htimely
     exact htimely
    split
    · next hsame =>
      obtain ⟨rfl,rfl⟩ := h.cas hpc hlate hsame
      exact ⟨_,_,_,h.trylock hpc⟩
    · exact ⟨_,_,_,h.goto (by rw [hpc]; rfl) rfl trivial⟩
  · next hpc =>
    cases hstep
    have hfits := h.threads t
    rw [hpc] at hfits
    exact ⟨_,_,_,h.goto (by rw [hpc]; rfl) rfl ⟨hfits,h.cur⟩⟩
  · next cur hpc =>
    cases hstep
    exact ⟨_,_,_,h.release hpc⟩
  · cases hstep

-- Runs

lemma exists_inv (hn : n < 2^32) (h : Reach (· = init) step Timely s) :
 ∃ released holder waiting, Inv s released holder waiting := by
 refine h.invariant (P := fun s => ∃ released holder waiting, Inv s released holder waiting) ?_ ?_
 · rintro _ rfl
   exact ⟨_,_,_,inv_init⟩
 · rintro s a s' ⟨released,holder,waiting,hinv⟩ htimely hstep
   exact hinv.step hn htimely hstep

lemma Inv.cas_free {next : Nat} (h : Inv s released holder waiting) (htimely : Timely s (t,.next))
 (hpc : s.pc t = .cas next) (hstep : s.step (t,.next) = some s')
 (hafter : s'.acquired = s.acquired++[t]) (u : Fin n) :
 s.holds u = false ∧ (s.pc u).waits = false := by
 have hlate : s.taken.length < s.loadedAt t+2^32 := by
  rw [Timely,hpc] at htimely
  exact htimely
 simp only [State.step,State.next,hpc] at hstep
 cases hstep
 split at hafter
 · next hsame =>
   obtain ⟨rfl,rfl⟩ := h.cas hpc hlate hsame
   refine ⟨Bool.eq_false_iff.mpr fun hu => ?_,Bool.eq_false_iff.mpr fun hu => ?_⟩
   · cases (h.holds u).mp hu
   · cases (h.waits u).mpr hu
 · exact absurd (self_eq_append_right.mp hafter) (cons_ne_nil t [])

/-- At most one thread holds the lock, the lock is given out in the order of the tickets, and a
trylock gets it only if nobody holds it or waits for it. -/
theorem ticketlock_exclusive_fifo (hn : n < 2^32) (h : Reach (· = State.init) State.step Timely s) :
 (∀ t u, s.holds t = true → s.holds u = true → t = u) ∧ s.acquired <+: s.taken ∧
 ∀ t next s', s.pc t = .cas next → Timely s (t,.next) → s.step (t,.next) = some s' →
  s'.acquired = s.acquired++[t] → ∀ u, s.holds u = false ∧ (s.pc u).waits = false := by
 obtain ⟨released,holder,waiting,hinv⟩ := exists_inv hn h
 refine ⟨fun t u ht hu => hinv.eq_holder ht hu,⟨waiting,hinv.taken.symm⟩,?_⟩
 intro t next s' hpc htimely hstep hafter
 exact hinv.cas_free htimely hpc hstep hafter

/-- Thread 1 waits for thread 0; when both have released the lock, a trylock of thread 2 gets it. -/
theorem ticketlock_exclusive_fifo_three : ∃ s s' : State 3,
 (s.step (2,.next) = some s' ∧ s.pc 2 = .cas 2 ∧ s.taken = [0,1] ∧ s'.acquired = s.acquired++[2]) ∧
 s.acquired <+: s.taken ∧ ∀ u, s.holds u = false ∧ (s.pc u).waits = false := by
 have hstart : Reach (· = init) step Timely (init : State 3) := .start rfl
 obtain ⟨s,s',hreach,hstep,hpc,htaken,hacquired,htimely⟩ := hstart.exists_step_of_run
  [(0,.lock),(0,.next),(0,.next),(1,.lock),(1,.next),(1,.next),(0,.unlock),(0,.next),(0,.next),
   (1,.next),(1,.unlock),(1,.next),(1,.next),(2,.trylock),(2,.next),(2,.next)] (2,.next)
  (fun s s' => s.pc 2 = .cas 2 ∧ s.taken = [0,1] ∧ s'.acquired = s.acquired++[2] ∧
   Timely s (2,.next)) (by decide +kernel)
 obtain ⟨-,hfifo,hfree⟩ := ticketlock_exclusive_fifo (by decide) hreach
 exact ⟨s,s',⟨hstep,hpc,htaken,hacquired⟩,hfifo,hfree 2 2 s' hpc htimely hstep hacquired⟩

end Packages.TicketLock
