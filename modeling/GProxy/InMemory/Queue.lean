import GProxy.Ritardatore.Program
import GProxy.Lib.LinkedChain

/-!
# The delay queue of the emulator in memory

The list at `root` as a chain of elements that `malloc` returned, each with a buffer of its own.
`aggiungi_in_ordine` walks with a pointer to a pointer, which is a slot; `free_pkt` frees the first
element and its buffer. To read or to write through a pointer that is `NULL` or was freed has no
result; nor has an access outside a buffer, or to read a byte that was never written.
-/

namespace GProxy.InMemory.Ritardatore

open Function (update update_self update_of_ne)
open LinkedChain (Slot Chain last)
open WordBytes (store)
open GProxy.Ritardatore (AddressString Cmd Elemento Timeval minore normalizza somma)

abbrev Addr := Nat

/-- `ELEMENTOLISTA *` and `char *`; `none` is `NULL`. -/
abbrev Ptr := Option Addr

/-- The fields of an element, less the link. -/
structure Campi where
  cmd : Cmd
  fd : Int
  portNumberLocal : UInt16
  portNumberDest : UInt16
  ipDest : AddressString
  len : Nat
  buf : Ptr
  timeout : Timeval

/-- The elements and the buffers, and which of them are allocated. `links` holds `root` and the
`next` of each element. A byte is `none` while nothing was written to it. -/
structure Mem where
  links : Slot Addr → Ptr
  live : Addr → Bool
  campi : Addr → Campi
  buffer : Addr → Option (List (Option UInt8))

/-- Read the fields through a pointer. -/
def Mem.get (m : Mem) : Ptr → Option Campi
  | none => none
  | some a => if m.live a then some (m.campi a) else none

/-- Write a field through a pointer. -/
def Mem.set (m : Mem) (p : Ptr) (field : Campi → Campi) : Option Mem :=
  match p with
  | none => none
  | some a =>
    if m.live a then some { m with campi := update m.campi a (field (m.campi a)) } else none

/-- `*pp` -/
def Mem.load (m : Mem) : Slot Addr → Option Ptr
  | .root => some (m.links .root)
  | .link a => if m.live a then some (m.links (.link a)) else none

/-- `*pp = p` -/
def Mem.store (m : Mem) (pp : Slot Addr) (p : Ptr) : Option Mem :=
  (m.load pp).map fun _ => { m with links := update m.links pp p }

/-- `malloc` hands out an address that is not in use; what the fields hold is left as it is. -/
def Mem.malloc (m : Mem) (a : Addr) : Option Mem :=
  if m.live a then none else some { m with live := update m.live a true }

def Mem.mallocBuf (m : Mem) (b : Addr) (size : Nat) : Option Mem :=
  if (m.buffer b).isSome then none
  else some { m with buffer := update m.buffer b (some (List.replicate size none)) }

def Mem.free (m : Mem) (a : Addr) : Option Mem :=
  if m.live a then some { m with live := update m.live a false } else none

def Mem.freeBuf (m : Mem) (b : Addr) : Option Mem :=
  if (m.buffer b).isSome then some { m with buffer := update m.buffer b none } else none

/-- The bytes of a buffer after a copy to an offset of it. -/
def overwrite (block : List (Option UInt8)) (offset : Nat) (bytes : List UInt8) :
    Option (List (Option UInt8)) :=
  if offset + bytes.length ≤ block.length then
    some (block.take offset ++ bytes.map some ++ block.drop (offset + bytes.length))
  else none

/-- `memcpy(buf + offset, bytes, …)` -/
def Mem.write (m : Mem) (buf : Ptr) (offset : Nat) (bytes : List UInt8) : Option Mem := do
  let b ← buf
  let block ← overwrite (← m.buffer b) offset bytes
  some { m with buffer := update m.buffer b (some block) }

/-- The first bytes of a buffer. -/
def Mem.read (m : Mem) (buf : Ptr) (size : Nat) : Option (List UInt8) := do
  let block ← m.buffer (← buf)
  if size ≤ block.length then (block.take size).mapM id else none

/-! ## The functions -/

/-- `minore` of the timeouts of two elements, which it normalises in place. -/
def minoreTimeout (m : Mem) (p q : Ptr) : Option (Mem × Bool) := do
  let m ← m.set p fun c => { c with timeout := normalizza c.timeout }
  let m ← m.set q fun c => { c with timeout := normalizza c.timeout }
  let a ← m.get p
  let b ← m.get q
  some (m, minore a.timeout b.timeout)

/-- The loop of `aggiungi_in_ordine`: where it stops. -/
def postoFrom (p : Ptr) : Nat → Mem → Slot Addr → Option (Mem × Slot Addr)
  | 0, _, _ => none
  | fuel + 1, m, pp => do
    match ← m.load pp with
    | none => some (m, pp)
    | some q =>
      let (m, less) ← minoreTimeout m p (some q)
      if less then some (m, pp) else postoFrom p fuel m (.link q)

/-- What is at the slot where the loop stops goes behind the element; behind the last element that
is `NULL`. -/
def aggiungiInOrdine (fuel : Nat) (m : Mem) (p : Ptr) : Option Mem :=
  match p with
  | none => some m
  | some a => do
    let (m, pp) ← postoFrom (some a) fuel m .root
    let tmp ← m.load pp
    let m ← m.store pp (some a)
    m.store (.link a) tmp

def freePkt (m : Mem) (proot : Slot Addr) : Option Mem := do
  match ← m.load proot with
  | none => some m
  | some tmp =>
    let m ← m.store proot (← m.load (.link tmp))
    let c ← m.get (some tmp)
    match c.buf with
    | none => m.free tmp
    | some b =>
      let m ← m.freeBuf b
      let m ← m.set (some tmp) fun c => { c with buf := none }
      m.free tmp

/-- An element with a buffer of `len` bytes, before its bytes and its timeout are written; `a` and
`b` are what `malloc` returns. -/
def preparaPkt (m : Mem) (a b : Addr) (len : Nat) (fd : Int)
    (portNumberLocal portNumberDest : UInt16) (ipDest : AddressString) : Option Mem := do
  let p : Ptr := some a
  let m ← m.malloc a
  let m ← m.mallocBuf b len
  let m ← m.set p fun c => { c with buf := some b }
  let m ← m.set p fun c => { c with cmd := .send }
  let m ← m.set p fun c => { c with len := len }
  let m ← m.set p fun c => { c with fd := fd }
  let m ← m.set p fun c => { c with portNumberLocal := portNumberLocal }
  let m ← m.set p fun c => { c with portNumberDest := portNumberDest }
  m.set p fun c => { c with ipDest := ipDest }

/-- The timeout of an element, and its place in the queue. -/
def accodaPkt (fuel : Nat) (m : Mem) (a : Addr) (ora delay : Timeval) : Option Mem := do
  let p : Ptr := some a
  let m ← m.set p fun c => { c with timeout := ora }
  let m ← m.set p fun c => { c with timeout := somma c.timeout delay }
  aggiungiInOrdine fuel m p

/-- `sizeof(ICMP)` -/
def sizeofIcmp : Nat := 9

/-- What `ricevo_inserisco` does for a notice, from `malloc` to the queue. -/
def accodaIcmp (fuel : Nat) (m : Mem) (a b : Addr) (localCounter : UInt32) (buf : List UInt8)
    (fd : Int) (portNumberLocal portNumberDest : UInt16) (ipDest : AddressString)
    (ora delay : Timeval) : Option Mem := do
  let m ← preparaPkt m a b sizeofIcmp fd portNumberLocal portNumberDest ipDest
  let c ← m.get (some a)
  let m ← m.write c.buf 0 (store (htonl localCounter))
  let m ← m.write c.buf 4 [typeI]
  let m ← m.write c.buf 5 (buf.take 4)
  accodaPkt fuel m a ora delay

/-- What `ricevo_inserisco` does for a copy, from `malloc` to the queue. -/
def accodaCopia (fuel : Nat) (m : Mem) (a b : Addr) (buf : List UInt8) (fd : Int)
    (portNumberLocal portNumberDest : UInt16) (ipDest : AddressString)
    (ora delay : Timeval) : Option Mem := do
  let m ← preparaPkt m a b buf.length fd portNumberLocal portNumberDest ipDest
  let c ← m.get (some a)
  let m ← m.write c.buf 0 buf
  accodaPkt fuel m a ora delay

/-- What is sent of an element: its fields and the bytes of its buffer. -/
def Mem.elemento (m : Mem) (c : Campi) : Option Elemento := do
  let buf ← m.read c.buf c.len
  some {
    cmd := c.cmd
    fd := c.fd
    portNumberLocal := c.portNumberLocal
    portNumberDest := c.portNumberDest
    ipDest := c.ipDest
    buf
    timeout := c.timeout }

/-! ## What the memory holds -/

/-- An element with its address and that of its buffer. -/
structure Cella where
  addr : Addr
  buf : Addr
  elemento : Elemento

/-- The fields of the element. -/
def Cella.campi (x : Cella) : Campi where
  cmd := x.elemento.cmd
  fd := x.elemento.fd
  portNumberLocal := x.elemento.portNumberLocal
  portNumberDest := x.elemento.portNumberDest
  ipDest := x.elemento.ipDest
  len := x.elemento.buf.length
  buf := some x.buf
  timeout := x.elemento.timeout

def Cella.normal (x : Cella) : Cella := { x with elemento := x.elemento.normal }

def Cella.timed (x : Cella) (timeout : Timeval) : Cella :=
  { x with elemento := { x.elemento with timeout } }

/-- The memory holds the element, every byte of its buffer written. -/
structure Cella.At (x : Cella) (m : Mem) : Prop where
  live : m.live x.addr = true
  campi : m.campi x.addr = x.campi
  buffer : m.buffer x.buf = some (x.elemento.buf.map some)

/-- These elements are allocated, each at a place of its own, and nothing else is. -/
structure Cells (m : Mem) (xs : List Cella) : Prop where
  at_mem : ∀ x ∈ xs, x.At m
  addr_nodup : (xs.map Cella.addr).Nodup
  buf_nodup : (xs.map Cella.buf).Nodup
  live_iff : ∀ a, m.live a = true ↔ a ∈ xs.map Cella.addr
  buffer_iff : ∀ b, (m.buffer b).isSome ↔ b ∈ xs.map Cella.buf

/-- The queue is a chain of elements; `loose` are not linked. -/
structure Represents (m : Mem) (loose xs : List Cella) : Prop where
  chain : Chain m.links .root (xs.map Cella.addr)
  cells : Cells m (loose ++ xs)

/-- What is allocated is what the queue holds: the elements that `root` leads to, and the buffer of
each of them. -/
def Mem.NoLeak (m : Mem) (length : Nat) : Prop :=
  ∃ as : List Addr, Chain m.links .root as ∧ as.length = length ∧
    (∀ a, m.live a = true ↔ a ∈ as) ∧
    ∀ b, (m.buffer b).isSome ↔ ∃ a ∈ as, (m.campi a).buf = some b

/-- Nothing is allocated, and `root` is `NULL`. -/
structure Mem.Empty (m : Mem) : Prop where
  root_eq : m.links .root = none
  live_eq : ∀ a, m.live a = false
  buffer_eq : ∀ b, m.buffer b = none

def Mem.initial : Mem :=
  ⟨fun _ => none, fun _ => false, fun _ => ⟨.send, 0, 0, 0, .localhost, 0, none, ⟨0, 0⟩⟩,
    fun _ => none⟩

/-- Nothing is allocated in the initial memory. -/
theorem Mem.empty_initial : Mem.initial.Empty := ⟨rfl, fun _ => rfl, fun _ => rfl⟩

section

variable {m : Mem} {a : Addr}

/-- Reading through a pointer to an allocated element has a result. -/
@[simp] theorem Mem.get_some (h : m.live a = true) : m.get (some a) = some (m.campi a) := if_pos h

/-- Writing through a pointer to an allocated element has a result, and only this element is
written. -/
@[simp] theorem Mem.set_some (h : m.live a = true) (field : Campi → Campi) :
    m.set (some a) field = some { m with campi := update m.campi a (field (m.campi a)) } :=
  if_pos h

/-- The `next` of an allocated element can be read through a pointer to it. -/
@[simp] theorem Mem.load_link (h : m.live a = true) :
    m.load (.link a) = some (m.links (.link a)) := if_pos h

end

/-- A memory where nothing is allocated holds the empty queue. -/
theorem Mem.Empty.represents {m : Mem} (h : m.Empty) : Represents m [] [] := by
  refine ⟨h.root_eq, ?_⟩
  exact {
    at_mem := fun _ hx => absurd hx List.not_mem_nil
    addr_nodup := List.nodup_nil
    buf_nodup := List.nodup_nil
    live_iff := fun a => by simp [h.live_eq a]
    buffer_iff := fun b => by simp [h.buffer_eq b] }

/-- A memory that holds a queue and nothing else has one element and one buffer for each cell:
nothing leaked, and nothing was freed that is still used. -/
theorem Represents.noLeak {m : Mem} {xs : List Cella} (h : Represents m [] xs) :
    m.NoLeak xs.length := by
  refine ⟨xs.map Cella.addr, h.chain, List.length_map _, h.cells.live_iff, ?_⟩
  intro b
  rw [h.cells.buffer_iff]
  constructor
  · intro hb
    obtain ⟨x, hx, rfl⟩ := List.mem_map.mp hb
    refine ⟨x.addr, List.mem_map_of_mem hx, ?_⟩
    rw [(h.cells.at_mem x hx).campi]
    rfl
  · rintro ⟨a, ha, hbuf⟩
    obtain ⟨x, hx, rfl⟩ := List.mem_map.mp ha
    rw [(h.cells.at_mem x hx).campi] at hbuf
    exact Option.some.inj hbuf ▸ List.mem_map_of_mem hx

/-! ## The loop of `aggiungi_in_ordine` -/

section

variable {m : Mem} {loose xs before after : List Cella} {p x : Cella}

/-- What the cells are asked does not depend on their order, so an insertion may be looked at as an
addition at the front. -/
theorem Cells.perm (h : Cells m before) (hperm : before.Perm after) : Cells m after where
  at_mem := fun x hx => h.at_mem x (hperm.mem_iff.mpr hx)
  addr_nodup := (hperm.map Cella.addr).nodup_iff.mp h.addr_nodup
  buf_nodup := (hperm.map Cella.buf).nodup_iff.mp h.buf_nodup
  live_iff := fun a => (h.live_iff a).trans (hperm.map Cella.addr).mem_iff
  buffer_iff := fun b => (h.buffer_iff b).trans (hperm.map Cella.buf).mem_iff

/-- What the cells are asked is not about the links, so rewriting the links keeps it. -/
theorem Cells.links (h : Cells m xs) (links : Slot Addr → Ptr) : Cells { m with links } xs where
  at_mem := fun x hx =>
    ⟨(h.at_mem x hx).live, (h.at_mem x hx).campi, (h.at_mem x hx).buffer⟩
  addr_nodup := h.addr_nodup
  buf_nodup := h.buf_nodup
  live_iff := h.live_iff
  buffer_iff := h.buffer_iff

/-- A write to the fields of one element, less those that say where its buffer is. -/
theorem Cells.set (h : Cells m (x :: xs)) (x' : Cella) (haddr : x'.addr = x.addr)
    (hbuf : x'.buf = x.buf) (hbytes : x'.elemento.buf = x.elemento.buf) :
    Cells { m with campi := update m.campi x.addr x'.campi } (x' :: xs) := by
  have hx := h.at_mem x List.mem_cons_self
  have haddr' : (x' :: xs).map Cella.addr = (x :: xs).map Cella.addr := by
    rw [List.map_cons, List.map_cons, haddr]
  have hbuf' : (x' :: xs).map Cella.buf = (x :: xs).map Cella.buf := by
    rw [List.map_cons, List.map_cons, hbuf]
  refine ⟨?_, haddr' ▸ h.addr_nodup, hbuf' ▸ h.buf_nodup, haddr' ▸ h.live_iff,
    hbuf' ▸ h.buffer_iff⟩
  intro y hy
  rcases List.mem_cons.mp hy with rfl | hy
  · refine ⟨haddr ▸ hx.live, ?_, ?_⟩
    · rw [haddr]
      exact update_self ..
    · rw [hbuf, hbytes]
      exact hx.buffer
  · have hy_at := h.at_mem y (List.mem_cons_of_mem x hy)
    have hne : y.addr ≠ x.addr := by
      intro heq
      exact (List.nodup_cons.mp h.addr_nodup).1 (heq ▸ List.mem_map_of_mem hy)
    exact ⟨hy_at.live, (update_of_ne hne _ _).trans hy_at.campi, hy_at.buffer⟩

/-- The slot where a walk stands can be read. -/
theorem Represents.load (h : Represents m loose (before ++ after)) :
    m.load (last .root (before.map Cella.addr)) = some (after.map Cella.addr).head? := by
  have hchain := h.chain
  rw [List.map_append] at hchain
  have hslot := hchain.rest.slot
  cases before with
  | nil => exact congrArg some hslot
  | cons y before =>
    obtain ⟨a, ha, hlast⟩ := LinkedChain.exists_last y.addr (before.map Cella.addr)
    have hlive : m.live a = true := by
      rw [h.cells.live_iff, List.map_append, List.map_append, List.map_cons]
      exact List.mem_append_right _ (List.mem_append_left _ ha)
    rw [List.map_cons] at hslot ⊢
    rw [LinkedChain.last, hlast] at hslot ⊢
    rw [Mem.load_link hlive, hslot]

/-- One comparison of the loop. -/
theorem Represents.compare (h : Represents m [p] (before ++ x :: after)) : ∃ m',
    minoreTimeout m (some p.addr) (some x.addr) =
      some (m', minore p.elemento.timeout x.elemento.timeout) ∧
    Represents m' [p.normal] (before ++ x.normal :: after) := by
  have hcells : Cells m (x :: p :: (before ++ after)) :=
    h.cells.perm ((List.perm_middle.cons p).trans (.swap x p _))
  have hp := hcells.at_mem p (List.mem_cons_of_mem x List.mem_cons_self)
  have hx := hcells.at_mem x List.mem_cons_self
  have hne : x.addr ≠ p.addr := by
    intro heq
    exact (List.nodup_cons.mp hcells.addr_nodup).1 (heq ▸ List.mem_cons_self)
  have hp' : Cells { m with campi := update m.campi p.addr p.normal.campi }
      (x :: p.normal :: (before ++ after)) :=
    ((hcells.perm (.swap p x _)).set p.normal rfl rfl rfl).perm (.swap x p.normal _)
  have hx' := hp'.set x.normal rfl rfl rfl
  refine ⟨_, ?_, ?_, hx'.perm ((List.Perm.swap p.normal x.normal _).trans
    (List.perm_middle.symm.cons p.normal))⟩
  · simp [minoreTimeout, hp.live, hx.live, hp.campi, hx.campi, hne, hne.symm, Cella.campi,
      Cella.normal, Elemento.normal, minore, GProxy.Ritardatore.normalizza_normalizza]
  · have haddr : (before ++ x.normal :: after).map Cella.addr =
        (before ++ x :: after).map Cella.addr := by
      rw [List.map_append, List.map_append]
      rfl
    rw [haddr]
    exact h.chain

/-- The pointer to a pointer that the walk stops at points into the last cell it passed. -/
theorem last_passed (before : List Cella) (x : Cella) :
    last .root ((before ++ [x]).map Cella.addr) = .link x.addr := by
  rw [List.map_append, LinkedChain.last_append]
  rfl

/-- The loop of `aggiungi_in_ordine` from where it stands: it ends, and where it stops is the place
of the element. -/
theorem Represents.posto (h : Represents m [p] (before ++ after)) {fuel : Nat}
    (hfuel : after.length < fuel) : ∃ (m' : Mem) (p' : Cella) (passed left : List Cella),
      postoFrom (some p.addr) fuel m (last .root (before.map Cella.addr)) =
        some (m', last .root ((before ++ passed).map Cella.addr)) ∧
      Represents m' [p'] (before ++ passed ++ left) ∧ p'.addr = p.addr ∧
      (passed ++ p' :: left).map Cella.elemento =
        GProxy.Ritardatore.aggiungiInOrdine p.elemento (after.map Cella.elemento) := by
  induction after generalizing m p before fuel with
  | nil =>
    obtain ⟨fuel, rfl⟩ := Nat.exists_eq_succ_of_ne_zero (Nat.ne_of_gt hfuel)
    refine ⟨m, p, [], [], ?_, ?_, rfl, rfl⟩
    · simp [postoFrom, h.load]
    · rwa [List.append_nil]
  | cons x after ih =>
    obtain ⟨fuel, rfl⟩ := Nat.exists_eq_succ_of_ne_zero (Nat.ne_of_gt (Nat.zero_lt_of_lt hfuel))
    obtain ⟨m₁, hcompare, h₁⟩ := h.compare
    have hturn : postoFrom (some p.addr) (fuel + 1) m (last .root (before.map Cella.addr)) =
        if minore p.elemento.timeout x.elemento.timeout = true then
          some (m₁, last .root (before.map Cella.addr))
        else postoFrom (some p.addr) fuel m₁ (.link x.addr) := by
      simp [postoFrom, h.load, hcompare]
    rw [hturn, List.map_cons, GProxy.Ritardatore.aggiungiInOrdine]
    by_cases hless : minore p.elemento.timeout x.elemento.timeout = true
    · rw [if_pos hless, if_pos hless]
      refine ⟨m₁, p.normal, [], x.normal :: after, ?_, ?_, rfl, rfl⟩
      · rw [List.append_nil]
      · rwa [List.append_nil]
    · rw [if_neg hless, if_neg hless]
      have hnext : Represents m₁ [p.normal] (before ++ [x.normal] ++ after) := by
        rwa [List.append_assoc]
      obtain ⟨m', p', passed, left, hloop, h', haddr, helementi⟩ :=
        ih hnext (Nat.lt_of_succ_lt_succ hfuel)
      rw [last_passed] at hloop
      refine ⟨m', p', x.normal :: passed, left, ?_, ?_, haddr, ?_⟩
      · rw [List.append_assoc] at hloop
        exact hloop
      · rwa [List.append_assoc before [x.normal] passed] at h'
      · exact congrArg (x.elemento.normal :: ·) helementi

/-- `aggiungi_in_ordine` of an element that is not linked. -/
theorem Represents.aggiungi (h : Represents m [p] xs) {fuel : Nat} (hfuel : xs.length < fuel) :
    ∃ m' xs', aggiungiInOrdine fuel m (some p.addr) = some m' ∧ Represents m' [] xs' ∧
      xs'.map Cella.elemento =
        GProxy.Ritardatore.aggiungiInOrdine p.elemento (xs.map Cella.elemento) := by
  have hstart : Represents m [p] ([] ++ xs) := h
  obtain ⟨m₁, p', passed, left, hloop, h₁, haddr, helementi⟩ := hstart.posto hfuel
  rw [List.nil_append] at hloop h₁
  have hload := h₁.load
  have hlive : m₁.live p.addr = true := haddr ▸ (h₁.cells.at_mem p' List.mem_cons_self).live
  have hslot : m₁.links (last .root (passed.map Cella.addr)) = (left.map Cella.addr).head? := by
    have hchain := h₁.chain
    rw [List.map_append] at hchain
    exact hchain.rest.slot
  have hnew : p'.addr ∉ passed.map Cella.addr ++ left.map Cella.addr := by
    rw [← List.map_append]
    exact (List.nodup_cons.mp h₁.cells.addr_nodup).1
  have hcall : aggiungiInOrdine fuel m (some p.addr) = some { m₁ with
      links := update (update m₁.links (last .root (passed.map Cella.addr)) (some p'.addr))
        (.link p'.addr) (m₁.links (last .root (passed.map Cella.addr))) } := by
    have hloop' : postoFrom (some p.addr) fuel m .root =
        some (m₁, last .root (passed.map Cella.addr)) := hloop
    simp [aggiungiInOrdine, hloop', hload, Mem.store, hlive, hslot, haddr]
  refine ⟨_, passed ++ p' :: left, hcall, ⟨?_, ?_⟩, helementi⟩
  · have hchain := h₁.chain
    rw [List.map_append] at hchain ⊢
    exact hchain.insert (LinkedChain.root_ne_link _) hnew
  · have hperm : (p' :: (passed ++ left)).Perm (passed ++ p' :: left) := List.perm_middle.symm
    exact (h₁.cells.perm hperm).links _

/-- `free_pkt(&root)` -/
theorem Represents.free (h : Represents m [] (x :: xs)) :
    ∃ m', freePkt m .root = some m' ∧ Represents m' [] xs := by
  have hx := h.cells.at_mem x List.mem_cons_self
  have hroot : m.links .root = some x.addr := h.chain.slot
  have hcall : freePkt m .root = some {
      links := update m.links .root (m.links (.link x.addr))
      live := update m.live x.addr false
      campi := update m.campi x.addr { x.campi with buf := none }
      buffer := update m.buffer x.buf none } := by
    simp [freePkt, Mem.load, hroot, hx.live, Mem.store, hx.campi, Cella.campi, Mem.freeBuf,
      hx.buffer, Mem.free]
  refine ⟨_, hcall, ⟨Chain.tail h.chain, ?_⟩⟩
  obtain ⟨haddr, hxs_addr⟩ := List.nodup_cons.mp h.cells.addr_nodup
  obtain ⟨hbuf, hxs_buf⟩ := List.nodup_cons.mp h.cells.buf_nodup
  refine ⟨?_, hxs_addr, hxs_buf, ?_, ?_⟩
  · intro y hy
    have hy_at := h.cells.at_mem y (List.mem_cons_of_mem x hy)
    have hne : y.addr ≠ x.addr := fun heq => haddr (heq ▸ List.mem_map_of_mem hy)
    have hne' : y.buf ≠ x.buf := fun heq => hbuf (heq ▸ List.mem_map_of_mem hy)
    exact ⟨(update_of_ne hne _ _).trans hy_at.live, (update_of_ne hne _ _).trans hy_at.campi,
      (update_of_ne hne' _ _).trans hy_at.buffer⟩
  · intro a
    by_cases ha : a = x.addr
    · subst ha
      simpa using haddr
    · have hlive := h.cells.live_iff a
      simp only [List.nil_append, List.map_cons, List.mem_cons, ha, false_or] at hlive
      simpa [update_of_ne ha] using hlive
  · intro b
    by_cases hb : b = x.buf
    · subst hb
      simpa using hbuf
    · have hsome := h.cells.buffer_iff b
      simp only [List.nil_append, List.map_cons, List.mem_cons, hb, false_or] at hsome
      simpa [update_of_ne hb] using hsome

/-- What is sent is the element. -/
theorem Cella.At.read (h : x.At m) {n : Nat} (hn : n ≤ x.elemento.buf.length) :
    m.read (some x.buf) n = some (x.elemento.buf.take n) := by
  have hwritten : ∀ bytes : List UInt8, (bytes.map some).mapM id = some bytes := by
    intro bytes
    induction bytes with
    | nil => rfl
    | cons b bytes ih => simp [List.mapM_cons, ih]
  simp [Mem.read, h.buffer, hn, ← List.map_take, hwritten]

/-- The element of a cell is what is read in its memory. -/
theorem Cella.At.elemento (h : x.At m) : m.elemento x.campi = some x.elemento := by
  have hread := h.read le_rfl
  rw [List.take_length] at hread
  simp [Mem.elemento, Cella.campi, hread]

/-! ## A new element -/

/-- An element that was allocated, with its fields and its bytes. -/
theorem Represents.alloc (h : Represents m [] xs) (hlive : m.live x.addr = false)
    (hbuffer : m.buffer x.buf = none) : Represents { m with
      live := update m.live x.addr true
      campi := update m.campi x.addr x.campi
      buffer := update m.buffer x.buf (some (x.elemento.buf.map some)) } [x] xs := by
  have haddr : x.addr ∉ xs.map Cella.addr := by
    intro hmem
    rw [(h.cells.live_iff x.addr).mpr hmem] at hlive
    cases hlive
  have hbuf : x.buf ∉ xs.map Cella.buf := by
    intro hmem
    have hsome := (h.cells.buffer_iff x.buf).mpr hmem
    rw [hbuffer] at hsome
    cases hsome
  refine ⟨h.chain, ?_, List.nodup_cons.mpr ⟨haddr, h.cells.addr_nodup⟩,
    List.nodup_cons.mpr ⟨hbuf, h.cells.buf_nodup⟩, ?_, ?_⟩
  · intro y hy
    rcases List.mem_cons.mp hy with rfl | hy
    · exact ⟨update_self .., update_self .., update_self ..⟩
    · have hy_at := h.cells.at_mem y hy
      have hne : y.addr ≠ x.addr := fun heq => haddr (heq ▸ List.mem_map_of_mem hy)
      have hne' : y.buf ≠ x.buf := fun heq => hbuf (heq ▸ List.mem_map_of_mem hy)
      exact ⟨(update_of_ne hne _ _).trans hy_at.live, (update_of_ne hne _ _).trans hy_at.campi,
        (update_of_ne hne' _ _).trans hy_at.buffer⟩
  · intro a
    by_cases ha : a = x.addr
    · subst ha
      simp
    · simpa [update_of_ne ha, ha] using h.cells.live_iff a
  · intro b
    by_cases hb : b = x.buf
    · subst hb
      simp
    · simpa [update_of_ne hb, hb] using h.cells.buffer_iff b

/-- A new element gets its timeout and its place. -/
theorem Represents.accoda (h : Represents m [p] xs) {fuel : Nat} (hfuel : xs.length < fuel)
    (ora delay : Timeval) : ∃ m' xs', accodaPkt fuel m p.addr ora delay = some m' ∧
      Represents m' [] xs' ∧ xs'.map Cella.elemento = GProxy.Ritardatore.aggiungiInOrdine
        { p.elemento with timeout := somma ora delay } (xs.map Cella.elemento) := by
  have hp := h.cells.at_mem p List.mem_cons_self
  have hnew : Represents
      { m with campi := update m.campi p.addr (p.timed (somma ora delay)).campi }
      [p.timed (somma ora delay)] xs :=
    ⟨h.chain, h.cells.set (p.timed (somma ora delay)) rfl rfl rfl⟩
  obtain ⟨m', xs', hcall, h', helementi⟩ := hnew.aggiungi hfuel
  refine ⟨m', xs', ?_, h', helementi⟩
  rw [← hcall]
  simp [accodaPkt, hp.live, hp.campi, Cella.campi, Cella.timed]

variable {a b : Addr}

/-- Two addresses that are not in use give a new element with a new buffer, its fields set and its
bytes not written yet. -/
theorem preparaPkt_some (ha : m.live a = false) (hb : m.buffer b = none) (len : Nat) (fd : Int)
    (portNumberLocal portNumberDest : UInt16) (ipDest : AddressString) :
    preparaPkt m a b len fd portNumberLocal portNumberDest ipDest = some { m with
      live := update m.live a true
      campi := update m.campi a ⟨.send, fd, portNumberLocal, portNumberDest, ipDest, len, some b,
        (m.campi a).timeout⟩
      buffer := update m.buffer b (some (List.replicate len none)) } := by
  simp [preparaPkt, Mem.malloc, ha, Mem.mallocBuf, hb]

/-- A copy goes into the queue. -/
theorem Represents.accodaCopia (h : Represents m [] xs) (ha : m.live a = false)
    (hb : m.buffer b = none) {fuel : Nat} (hfuel : xs.length < fuel) (buf : List UInt8) (fd : Int)
    (portNumberLocal portNumberDest : UInt16) (ipDest : AddressString) (ora delay : Timeval) :
    ∃ m' xs', accodaCopia fuel m a b buf fd portNumberLocal portNumberDest ipDest ora delay =
        some m' ∧
      Represents m' [] xs' ∧ xs'.map Cella.elemento = GProxy.Ritardatore.aggiungiInOrdine
        ⟨.send, fd, portNumberLocal, portNumberDest, ipDest, buf, somma ora delay⟩
        (xs.map Cella.elemento) := by
  have hnew := h.alloc (x := ⟨a, b, .send, fd, portNumberLocal, portNumberDest, ipDest, buf,
    (m.campi a).timeout⟩) ha hb
  obtain ⟨m', xs', hcall, h', helementi⟩ := hnew.accoda hfuel ora delay
  refine ⟨m', xs', ?_, h', helementi⟩
  rw [← hcall]
  simp [Ritardatore.accodaCopia, preparaPkt_some ha hb, Mem.write, overwrite, Cella.campi]

/-- A notice goes into the queue. -/
theorem Represents.accodaIcmp (h : Represents m [] xs) (ha : m.live a = false)
    (hb : m.buffer b = none) {fuel : Nat} (hfuel : xs.length < fuel) (localCounter : UInt32)
    {buf : List UInt8} (hbuf : 4 ≤ buf.length) (fd : Int)
    (portNumberLocal portNumberDest : UInt16) (ipDest : AddressString) (ora delay : Timeval) :
    ∃ m' xs', accodaIcmp fuel m a b localCounter buf fd portNumberLocal portNumberDest ipDest ora
        delay = some m' ∧
      Represents m' [] xs' ∧ xs'.map Cella.elemento = GProxy.Ritardatore.aggiungiInOrdine
        ⟨.send, fd, portNumberLocal, portNumberDest, ipDest,
          GProxy.Ritardatore.icmp localCounter buf, somma ora delay⟩
        (xs.map Cella.elemento) := by
  have hnew := h.alloc (x := ⟨a, b, .send, fd, portNumberLocal, portNumberDest, ipDest,
    GProxy.Ritardatore.icmp localCounter buf, (m.campi a).timeout⟩) ha hb
  obtain ⟨m', xs', hcall, h', helementi⟩ := hnew.accoda hfuel ora delay
  refine ⟨m', xs', ?_, h', helementi⟩
  rw [← hcall]
  have htake : (buf.take 4).length = 4 := List.length_take_of_le hbuf
  simp [Ritardatore.accodaIcmp, preparaPkt_some ha hb, Mem.write, overwrite, Cella.campi,
    GProxy.Ritardatore.icmp, sizeofIcmp, htake, store]

end

end GProxy.InMemory.Ritardatore
