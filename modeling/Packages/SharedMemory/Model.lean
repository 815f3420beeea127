import Packages.Lib.Region
import Packages.Lib.Transition

/-!
# Shared memory blocks

`odp_shared_memory.c`: one table of named blocks over three kinds of memory, the mappings of `mmap`,
anonymous or of a file, and the named districts of continuous physical memory. What the system
answers is part of the call; an answer that it cannot give correctly counts as a refusal.
-/

namespace Packages.SharedMemory

open Function

abbrev configShmBlocks := 16+48
abbrev shmNameLen := 32
abbrev shmInvalid := 0

abbrev shmProc := 0x2
abbrev shmMonopolizeCntnusPhy := 0x4
abbrev shmShareCntnusPhy := 0x8
abbrev memzone2MB := 0x1

/-- A C string. -/
abbrev Name := List Char

-- The memory of the system

structure District where
 name : Name
 region : Region
 deriving DecidableEq

structure Memory where
 maps : List Region
 districts : List District
 deriving DecidableEq

namespace Memory

variable (m : Memory)

def regions : List Region := m.maps++m.districts.map (·.region)

/-- Addresses of the process, none of them in use. -/
def Fresh (r : Region) : Prop := 0 < r.base ∧ r.base+r.len ≤ 2^63 ∧ ∀ r' ∈ m.regions, r.Apart r'

instance (r : Region) : Decidable (m.Fresh r) := inferInstanceAs (Decidable (_ ∧ _ ∧ _))

def mmap (answer : Option Nat) (len : Nat) : Option (Nat × Memory) :=
 match answer with
 | none => none
 | some addr =>
  if m.Fresh ⟨addr,len⟩ then some (addr,{ m with maps := ⟨addr,len⟩::m.maps }) else none

def munmap (r : Region) : Memory := { m with maps := m.maps.filter (· ≠ r) }

def districtReserve (answer : Option Region) (name : Name) (len : Nat) :
 Option (District × Memory) :=
 match m.districts.find? (·.name = name) with
 | some d => some (d,m)
 | none =>
  match answer with
  | none => none
  | some r =>
   if len ≤ r.len ∧ m.Fresh r then some (⟨name,r⟩,{ m with districts := ⟨name,r⟩::m.districts })
   else none

def districtUnreserve (name : Name) : Memory :=
 { m with districts := m.districts.filter (·.name ≠ name) }

end Memory

/-- The page sizes of the system; a huge page size of zero says that there are no huge pages. -/
structure Pages where
 pageSz : Nat
 hugeSz : Nat
 huge : hugeSz = 0 ∨ ∃ k < 63, hugeSz = 2^k

-- The table

structure Block where
 name : Name
 size : Nat
 align : Nat
 allocSize : Nat
 addrOrig : Nat
 addr : Nat
 huge : Bool
 hdl : Nat
 flags : Nat
 pageSz : Nat
 fd : Int
 deriving DecidableEq

def Block.zero : Block := ⟨[],0,0,0,0,0,false,0,0,0,0⟩

/-- The table and the memory. `backing` is the district that was obtained for a block. -/
structure State where
 block : Fin configShmBlocks → Block
 memory : Memory
 backing : Fin configShmBlocks → Option District

def start (maps : List Region) : State := ⟨fun _ => .zero,⟨maps,[]⟩,fun _ => none⟩

def hasFlag (flags flag : Nat) : Bool := flags &&& flag ≠ 0

def isPhys (flags : Nat) : Bool :=
 hasFlag flags shmMonopolizeCntnusPhy || hasFlag flags shmShareCntnusPhy

def fromHandle (shm : Nat) : Nat := (shm+2^32-1)%2^32

def toHandle (index : Nat) : Nat := index+1

namespace State

variable (s : State)

def setBlock (i : Fin configShmBlocks) (b : Block) : State :=
 { s with block := update s.block i b }

@[simp] lemma setBlock_self (i : Fin configShmBlocks) (b : Block) : (s.setBlock i b).block i = b :=
 update_self ..

lemma setBlock_of_ne {i j : Fin configShmBlocks} (h : j ≠ i) (b : Block) :
 (s.setBlock i b).block j = s.block j :=
 update_of_ne h ..

def findBlock (name : Name) : Option (Fin configShmBlocks) :=
 (List.finRange configShmBlocks).find? fun i => name = (s.block i).name

/-- The loop of `odp_shm_reserve` over the table. -/
def freeBlock : Option (Fin configShmBlocks) :=
 (List.finRange configShmBlocks).find? fun i => (s.block i).addr = 0

def lookup (name : Name) : Nat :=
 match s.findBlock name with
 | none => shmInvalid
 | some i => (s.block i).hdl

end State

/-- `snprintf` of `"%s_%d"` into `ODP_SHM_NAME_LEN + 8` bytes. -/
def districtName (name : Name) (pid : Nat) : Name :=
 (name ++ '_' :: Nat.toDigits 10 pid).take (shmNameLen+8-1)

-- Reserve

/-- The arguments of `odp_shm_reserve`, and the caller's process. -/
structure Request where
 name : Name
 size : Nat
 align : Nat
 flags : Nat
 pid : Nat

/-- What the system answers while the call runs: the file of `shm_open`, the district, the two
`ftruncate` and the two `mmap`. -/
structure Answers where
 fd : Option Nat
 district : Option Region
 truncateHuge : Bool
 mapHuge : Option Nat
 truncate : Bool
 map : Option Nat

namespace Request

variable (r : Request)

def allocSize : Nat := (r.size+r.align)%2^64

/-- The mask with `-huge_sz` is written as a division. -/
def allocHpSize (p : Pages) : Nat := (r.size+r.align+(p.hugeSz-1))%2^64/p.hugeSz*p.hugeSz

def needHugePage (p : Pages) : Bool := p.hugeSz ≠ 0 ∧ p.pageSz < r.allocSize

/-- What is opened before the table is looked at: a file, a district or nothing. -/
def openBacking (a : Answers) (m : Memory) : Option (Option District × Int × Memory) :=
 if hasFlag r.flags shmProc then a.fd.map fun fd : Nat => (none,(fd : Int),m)
 else if hasFlag r.flags shmMonopolizeCntnusPhy then
  (m.districtReserve a.district (districtName r.name r.pid) r.allocSize).map
   fun (zone,m) => (some zone,-1,m)
 else if hasFlag r.flags shmShareCntnusPhy then
  (m.districtReserve a.district r.name r.allocSize).map fun (zone,m) => (some zone,-1,m)
 else some (none,-1,m)

/-- `ODP_ALIGN_ROUNDUP_PTR` -/
def roundPtr (addr : Nat) : Nat := r.align*((addr+r.align-1)%2^64/r.align)%2^64

/-- The fields that both kinds of block are given in the end. -/
def fill (b : Block) (fd : Int) (addr : Nat) : Block :=
 { b with
   name := r.name.take (shmNameLen-1)
   size := r.size
   align := r.align
   flags := r.flags
   fd := fd
   addrOrig := addr
   addr := r.roundPtr addr }

end Request

namespace State

variable (s : State) (p : Pages) (r : Request) (a : Answers) (i : Fin configShmBlocks)

/-- The attempt with huge pages; an error says that the call returned. The file begins by undefining
`MAP_HUGETLB`, which compiles the attempt out: so built, the code is that for `hugeSz = 0`. -/
def mapHuge : Except State (State × Option Nat) :=
 if r.needHugePage p then
  if hasFlag r.flags shmProc ∧ ¬a.truncateHuge then .error s
  else
   match s.memory.mmap a.mapHuge (r.allocHpSize p) with
   | none => .ok (s,none)
   | some (addr,m) =>
    .ok ({ s.setBlock i { s.block i with
     allocSize := r.allocHpSize p
     huge := true
     pageSz := p.hugeSz } with memory := m },some addr)
 else .ok (s,none)

def mapNormal : Except State (State × Nat) :=
 if hasFlag r.flags shmProc ∧ ¬a.truncate then .error s
 else
  match s.memory.mmap a.map r.allocSize with
  | none => .error s
  | some (addr,m) =>
   .ok ({ s.setBlock i { s.block i with
    allocSize := r.allocSize
    huge := false
    pageSz := p.pageSz } with memory := m },addr)

/-- The block on a mapping. -/
def finishMapped (fd : Int) (addr : Nat) : State :=
 { s.setBlock i (r.fill (s.block i) fd addr) with backing := update s.backing i none }

/-- The block on a district. -/
def finishZone (zone : District) : State :=
 { s.setBlock i (r.fill { s.block i with
    allocSize := r.allocSize
    huge := true
    pageSz := memzone2MB } (-1) zone.region.base) with
   backing := update s.backing i (some zone) }

/-- The rest of `odp_shm_reserve` once the table has a free entry; `none` where a null `zone` is
followed. -/
def fillEntry (zone : Option District) (fd : Int) : Option (Nat × State) :=
 match (s.setBlock i { s.block i with hdl := toHandle i }).mapHuge p r a i with
 | .error s => some (shmInvalid,s)
 | .ok (s,addr) =>
  if isPhys r.flags then zone.map fun zone => (toHandle i,s.finishZone r i zone)
  else
   match addr with
   | some addr => some (toHandle i,s.finishMapped r i fd addr)
   | none =>
    match s.mapNormal p r a i with
    | .error s => some (shmInvalid,s)
    | .ok (s,addr) => some (toHandle i,s.finishMapped r i fd addr)

def reserve : Option (Nat × State) :=
 match r.openBacking a s.memory with
 | none => some (shmInvalid,s)
 | some (zone,fd,m) =>
  let s := { s with memory := m }
  if (s.findBlock r.name).isSome then some (shmInvalid,s)
  else
   match s.freeBlock with
   | none => some (shmInvalid,s)
   | some i => s.fillEntry p r a i zone fd

-- Free

def clear : State :=
 { s.setBlock i .zero with backing := update s.backing i none }

/-- The name that `odp_shm_free` gives back: with a shared district its own `name`, which it has not
written. -/
def freedName (pid : Nat) (name : Name) : Name :=
 if hasFlag (s.block i).flags shmMonopolizeCntnusPhy then districtName (s.block i).name
  pid else name

/-- `odp_shm_free` of the entry behind a handle. -/
def freeEntry (pid : Nat) (name : Name) (unmaps unlinks : Bool) : Int × State :=
 let block := s.block i
 if block.addr = 0 then (0,s)
 else if isPhys block.flags then
  (0,{ s.clear i with memory := s.memory.districtUnreserve (s.freedName i pid name) })
 else if unmaps = false then (-1,s)
 else
  let s := { s with memory := s.memory.munmap ⟨block.addrOrig,block.allocSize⟩ }
  if hasFlag block.flags shmProc ∧ unlinks = false then (-1,s) else (0,s.clear i)

/-- `odp_shm_free` by process `pid`; `name` is what the array of that name holds, `unmaps` and
`unlinks` say whether `munmap` and `shm_unlink` succeed. -/
def free (shm pid : Nat) (name : Name) (unmaps unlinks : Bool) : Int × State :=
 if shm = shmInvalid then (-1,s)
 else if h : fromHandle shm < configShmBlocks then s.freeEntry ⟨fromHandle shm,h⟩ pid name
  unmaps unlinks
 else (-1,s)

end State

inductive Action
 | reserve (r : Request) (a : Answers)
 | free (shm pid : Nat) (name : Name) (unmaps unlinks : Bool)

def step (p : Pages) (s : State) : Action → Option State
 | .reserve r a => (s.reserve p r a).map (·.2)
 | .free shm pid name unmaps unlinks => some (s.free shm pid name unmaps unlinks).2

-- Calls

/-- A name of 1 to 31 bytes and an alignment that is a power of two. -/
def Request.Proper (r : Request) : Prop :=
 r.name ≠ [] ∧ r.name.length < shmNameLen ∧ ∃ k < 64, r.align = 2^k

instance (r : Request) : Decidable r.Proper := inferInstanceAs (Decidable (_ ∧ _ ∧ _))

/-- Calls with a proper name and alignment. -/
def Named : Action → Prop
 | .reserve r _ => r.Proper
 | .free .. => True

instance (c : Action) : Decidable (Named c) := by
 cases c <;> (unfold Named; infer_instance)

/-- The name of the district that the call asks for. -/
def Request.district? (r : Request) : Option Name :=
 if hasFlag r.flags shmProc then none
 else if hasFlag r.flags shmMonopolizeCntnusPhy then some (districtName r.name r.pid)
 else if hasFlag r.flags shmShareCntnusPhy then some r.name
 else none

def State.Live (s : State) (i : Fin configShmBlocks) : Prop := (s.block i).addr ≠ 0

instance (s : State) (i : Fin configShmBlocks) : Decidable (s.Live i) :=
 inferInstanceAs (Decidable (_ ≠ _))

/-- The states that calls reach from an empty table, whatever else is mapped. -/
abbrev Reachable (allowed : State → Action → Prop) (p : Pages) (maps : List Region) :
 State → Prop :=
 Transition.Reach (· = start maps) (step p) allowed

-- Sample calls

/-- A system without huge pages. -/
def smallPages : Pages := ⟨4096,0,.inl rfl⟩

def answered (district : Option Region) (map : Option Nat) : Answers :=
 ⟨none,district,false,none,false,map⟩

def shared (name : Name) (size : Nat) : Request := ⟨name,size,64,shmShareCntnusPhy,7⟩

def monopolized (name : Name) (size : Nat) : Request := ⟨name,size,64,shmMonopolizeCntnusPhy,7⟩

def anonymous (name : Name) (size : Nat) : Request := ⟨name,size,64,0,7⟩

end Packages.SharedMemory
