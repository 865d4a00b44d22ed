import Redix.Base.FlatMap
import Redix.Base.Ownership

/-!
# Who owns a descriptor (fd.cpp)

`FileDescriptor` closes the descriptor it holds when it is destroyed or assigned over, passes it
on when it is moved from, and gives it up on `release`. `fd_` is a number, and numbers are used
again: what a `close` hits is whatever is open under the number by then. So the objects are run
in a process with a table of what is open, in which every opening of a number is a descriptor of
its own.

- `FileDescriptor`: the member functions, each with what it closes;
- `Process.step`: one construction, move, release or destruction of an object at an address, or
  what the rest of the process does with descriptors that no object holds;
- `Sound`: the invariant; each step keeps it, and is one or more steps of `Ownership.Step`;
- `descriptors_owned_once`: no two objects hold one descriptor, and each is closed at most once,
  exactly once if it was not released, and never after.
-/

namespace Redix

/-! ## The class -/

/-- `FileDescriptor` -/
structure FileDescriptor where
  fd : Int := -1
deriving DecidableEq

namespace FileDescriptor

/-- `FileDescriptor::get` -/
def get (self : FileDescriptor) : Int := self.fd

/-- `FileDescriptor::operator bool` -/
def isValid (self : FileDescriptor) : Bool := 0 ≤ self.fd

/-- What the object closes, in its destructor or when it is assigned to: nothing if it is empty. -/
def closes (self : FileDescriptor) : Option Int := if 0 ≤ self.fd then some self.fd else none

/-- `std::exchange(fd_, -1)`: the number, and the object afterwards. -/
def exchange (self : FileDescriptor) : Int × FileDescriptor := (self.fd, { self with fd := -1 })

/-- `FileDescriptor(FileDescriptor&&)`: the new object, and the other one afterwards. -/
def moveConstruct (other : FileDescriptor) : FileDescriptor × FileDescriptor :=
  let (fd, other) := other.exchange
  (⟨fd⟩, other)

/-- `operator=(FileDescriptor&&)` between two objects: what is closed, and both afterwards. -/
def moveAssign (self other : FileDescriptor) : Option Int × FileDescriptor × FileDescriptor :=
  let closed := self.closes
  let (fd, other) := other.exchange
  (closed, { self with fd }, other)

/-- `FileDescriptor::release` -/
def release (self : FileDescriptor) : Int × FileDescriptor := self.exchange

end FileDescriptor

/-! ## The process -/

/-- A descriptor: the number, and which opening it comes from. -/
structure Descriptor where
  number : Int
  opening : Nat
deriving DecidableEq

/-- The objects, by their addresses, and what is open. -/
structure Process where
  objects : FlatMap Nat FileDescriptor := .empty
  /-- The open numbers, each with its opening. -/
  table : FlatMap Int Nat := .empty
  /-- How often a number has been opened. -/
  openings : Nat := 0
  /-- What has become of the descriptors that objects were made from. -/
  log : List (Ownership.Event Descriptor) := []
  /-- Calls of `close` with a number that was not open. -/
  stray : List Int := []

namespace Process

/-- What is open under a number. -/
def descriptor? (p : Process) (fd : Int) : Option Descriptor := (p.table.find? fd).map (⟨fd, ·⟩)

/-- Put an object at an address. -/
def place (p : Process) (address : Nat) (object : FileDescriptor) : Process :=
  { p with objects := p.objects.insert address object }

/-- The kernel opens a number. -/
def opens (p : Process) (fd : Int) : Process :=
  { p with table := p.table.insert fd p.openings, openings := p.openings + 1 }

/-- The kernel opens a number that an object is then made from. -/
def acquires (p : Process) (fd : Int) : Process :=
  { p.opens fd with log := p.log ++ [.acquired ⟨fd, p.openings⟩] }

/-- The class calls `close`, if it does. -/
def close (p : Process) : Option Int → Process
  | none => p
  | some fd =>
    match p.descriptor? fd with
    | some d => { p with table := p.table.erase fd, log := p.log ++ [.closed d] }
    | none => { p with stray := p.stray ++ [fd] }

/-- The class hands a number to its caller, for good. -/
def handOver (p : Process) (fd : Int) : Process :=
  match p.descriptor? fd with
  | some d => { p with log := p.log ++ [.released d] }
  | none => p

/-- One thing that happens. -/
inductive Op where
  | construct (address : Nat) (fd : Int)
  | moveConstruct (address other : Nat)
  | moveAssign (address other : Nat)
  | release (address : Nat)
  | destroy (address : Nat)
  /-- The rest of the process opens a descriptor that it keeps to itself. -/
  | opensElsewhere (fd : Int)
  /-- The rest of the process closes a descriptor that no object holds. -/
  | closesElsewhere (fd : Int)

/-- What happens then, if it can: an object is made at a free address, from `-1` or from a
number that was not open before, and only objects that are there are moved, released or
destroyed. -/
def step (p : Process) : Op → Option Process
  | .construct address fd =>
    if p.objects.contains address then none
    else if fd = -1 then some (p.place address ⟨-1⟩)
    else if 0 ≤ fd ∧ p.table.contains fd = false then
      some ((p.acquires fd).place address ⟨fd⟩)
    else none
  | .moveConstruct address other =>
    if p.objects.contains address then none
    else
      (p.objects.find? other).map fun object =>
        let (self, object) := object.moveConstruct
        (p.place other object).place address self
  | .moveAssign address other =>
    match p.objects.find? address, p.objects.find? other with
    | some self, some object =>
      -- `this != &other`
      if address ≠ other then
        let (closed, self, object) := self.moveAssign object
        some (((p.close closed).place other object).place address self)
      else some p
    | _, _ => none
  | .release address =>
    (p.objects.find? address).map fun self =>
      let (fd, self) := self.release
      (p.handOver fd).place address self
  | .destroy address =>
    (p.objects.find? address).map fun self =>
      let p := p.close self.closes
      { p with objects := p.objects.erase address }
  | .opensElsewhere fd =>
    if 0 ≤ fd ∧ p.table.contains fd = false then some (p.opens fd) else none
  | .closesElsewhere fd =>
    if p.objects.values.all (·.fd ≠ fd) then some { p with table := p.table.erase fd } else none

/-- One thing after another. -/
def run (p : Process) : List Op → Option Process
  | [] => some p
  | op :: ops => (p.step op).bind fun p => p.run ops

/-- `close` leaves the objects as they are. -/
theorem objects_close (p : Process) (fd : Option Int) : (p.close fd).objects = p.objects := by
  cases fd with
  | none => rfl
  | some fd =>
    rw [close]
    cases p.descriptor? fd <;> rfl

/-- What is placed at an address later replaces what was there. -/
theorem place_absorbs (p : Process) (address other : Nat) (x y z : FileDescriptor) :
    ((p.place address x).place other y).place address z = (p.place other y).place address z := by
  refine congrArg (fun objects => { p with objects }) (FlatMap.ext_find? fun k => ?_)
  show (((p.objects.insert address x).insert other y).insert address z).find? k =
    ((p.objects.insert other y).insert address z).find? k
  rw [FlatMap.find?_insert, FlatMap.find?_insert, FlatMap.find?_insert, FlatMap.find?_insert,
    FlatMap.find?_insert]
  split_ifs <;> rfl

/-! ## Who holds what -/

/-- The objects as owners: an object holds what is open under its number. -/
def ledger (p : Process) : Ownership.Ledger Nat Descriptor where
  holds address := (p.objects.find? address).bind fun object => p.descriptor? object.fd
  log := p.log

variable {p p' : Process} {address other opening : Nat} {self object : FileDescriptor} {fd : Int}

/-- A number in the table is the descriptor that was opened there. -/
theorem descriptor?_of_open (hopen : p.table.find? fd = some opening) :
    p.descriptor? fd = some ⟨fd, opening⟩ := by
  rw [descriptor?, hopen, Option.map_some]

/-- An object holds what its number stands for. -/
theorem holds_of_find? (h : p.objects.find? address = some object) :
    p.ledger.holds address = p.descriptor? object.fd := by
  show (p.objects.find? address).bind _ = _
  rw [h, Option.bind_some]

/-- Where there is no object, nothing is held. -/
theorem holds_of_free (h : p.objects.find? address = none) : p.ledger.holds address = none := by
  show (p.objects.find? address).bind _ = _
  rw [h, Option.bind_none]

/-- Objects that are the same, with the same open under their numbers, hold the same. -/
theorem holds_congr (hobjects : p'.objects = p.objects)
    (htable : ∀ object, p.objects.find? address = some object →
      p'.table.find? object.fd = p.table.find? object.fd) :
    p'.ledger.holds address = p.ledger.holds address := by
  cases hfind : p.objects.find? address with
  | none => rw [holds_of_free hfind, holds_of_free (hobjects ▸ hfind)]
  | some object =>
    rw [holds_of_find? hfind, holds_of_find? (hobjects ▸ hfind), descriptor?, descriptor?,
      htable object hfind]

/-- A new number in an object changes what is held there, and nowhere else. -/
theorem holds_place (p : Process) (address : Nat) (object : FileDescriptor) :
    (p.place address object).ledger.holds =
      Function.update p.ledger.holds address (p.descriptor? object.fd) := by
  funext address'
  show ((p.objects.insert address object).find? address').bind _ = _
  rw [FlatMap.find?_insert, Function.update_apply]
  by_cases h : address = address'
  · rw [if_pos h, if_pos h.symm]
    rfl
  · rw [if_neg h, if_neg (Ne.symm h)]
    rfl

/-- Where an empty object is placed, nothing is held. -/
theorem ledger_place_empty (p p' : Process) (hempty : p'.descriptor? (-1) = none)
    (hsame : ∀ other, other ≠ address → p'.ledger.holds other = p.ledger.holds other) :
    (p'.place address ⟨-1⟩).ledger = ⟨Function.update p.ledger.holds address none, p'.log⟩ := by
  refine congrArg (Ownership.Ledger.mk · p'.log) ((holds_place p' address ⟨-1⟩).trans ?_)
  funext other
  rw [Function.update_apply, Function.update_apply]
  split_ifs with heq
  · exact hempty
  · exact hsame other heq

/-- Where an empty object is placed, what is there is empty. -/
theorem find?_place_empty {address' : Nat}
    (h : (p.place address ⟨-1⟩).objects.find? address' = some object) :
    object.fd = -1 ∨ (address' ≠ address ∧ p.objects.find? address' = some object) := by
  have h : (p.objects.insert address ⟨-1⟩).find? address' = some object := h
  rw [FlatMap.find?_insert] at h
  split_ifs at h with hsame
  · exact .inl (Option.some.inj h ▸ rfl)
  · exact .inr ⟨Ne.symm hsame, h⟩

/-! ## The invariant -/

/-- Open numbers are no `-1`, an object that is not empty holds an open one, nothing was closed
that was not open, and what the objects did is what owners may do. -/
structure Sound (p : Process) : Prop where
  number : ∀ {fd opening}, p.table.find? fd = some opening → 0 ≤ fd ∧ opening < p.openings
  valid : ∀ {address object}, p.objects.find? address = some object →
    object.fd = -1 ∨ ∃ opening, p.table.find? object.fd = some opening
  logged : ∀ {d}, .acquired d ∈ p.log → d.opening < p.openings
  unstrayed : p.stray = []
  history : Ownership.Reaches {} p.ledger

/-- A process that has opened nothing is sound. -/
theorem sound_empty : Sound {} where
  number h := by cases h
  valid h := by cases h
  logged h := by cases h
  unstrayed := rfl
  history := .refl

namespace Sound

/-- An empty object has no descriptor. -/
theorem descriptor?_empty (h : p.Sound) : p.descriptor? (-1) = none := by
  rw [descriptor?, Option.map_eq_none_iff]
  cases hfind : p.table.find? (-1) with
  | none => rfl
  | some opening => exact absurd (h.number hfind).1 (by decide)

/-- Two objects with one number are one object. -/
theorem unique (h : p.Sound) (hself : p.objects.find? address = some self)
    (hobject : p.objects.find? other = some object) (hvalid : self.isValid = true)
    (hsame : self.get = object.get) : address = other := by
  have hpos : 0 ≤ self.fd := of_decide_eq_true hvalid
  have hsame : self.fd = object.fd := hsame
  rcases h.valid hself with hempty | ⟨opening, hopen⟩
  · omega
  · have hd := descriptor?_of_open hopen
    refine (Ownership.kept_of_reaches h.history).unique ((holds_of_find? hself).trans hd) ?_
    rw [holds_of_find? hobject, ← hsame, hd]

/-- An empty object where there is none that holds something changes nothing. -/
theorem place_empty (h : p.Sound) (hfree : p.ledger.holds address = none) :
    (p.place address ⟨-1⟩).Sound := by
  refine ⟨h.number, fun {address' object} hfind => ?_, h.logged, h.unstrayed, ?_⟩
  · rcases find?_place_empty hfind with hempty | ⟨-, hfind⟩
    · exact .inl hempty
    · exact h.valid hfind
  · have hsame : (p.place address ⟨-1⟩).ledger = p.ledger := by
      have hholds := holds_place p address ⟨-1⟩
      rw [h.descriptor?_empty, Function.update_eq_self_iff.mpr hfree.symm] at hholds
      exact congrArg (Ownership.Ledger.mk · p.log) hholds
    rw [hsame]
    exact h.history

/-- An empty object gives up its place. -/
theorem remove (h : p.Sound) (hfree : p.ledger.holds address = none) :
    Sound { p with objects := p.objects.erase address } := by
  refine ⟨h.number, fun {address' object} hfind => ?_, h.logged, h.unstrayed, ?_⟩
  · have hfind : (p.objects.erase address).find? address' = some object := hfind
    rw [FlatMap.find?_erase] at hfind
    split_ifs at hfind
    exact h.valid hfind
  -- an object that owned nothing leaves the ledger as it was
  · have hsame : ledger { p with objects := p.objects.erase address } = p.ledger := by
      refine congrArg (Ownership.Ledger.mk · p.log) (funext fun address' => ?_)
      show ((p.objects.erase address).find? address').bind _ = p.ledger.holds address'
      rw [FlatMap.find?_erase]
      split_ifs with heq
      · rw [← heq, hfree, Option.bind_none]
      · rfl
    rw [hsame]
    exact h.history

/-- No object has a number that is not open. -/
theorem ne_of_closed (h : p.Sound) (hfind : p.objects.find? address = some object) (hpos : 0 ≤ fd)
    (hnew : p.table.find? fd = none) : fd ≠ object.fd := by
  rintro rfl
  rcases h.valid hfind with hempty | ⟨opening, hopen⟩
  · omega
  · cases hopen.symm.trans hnew

/-- A descriptor that was just opened is not held yet. -/
theorem ledger_opens (h : p.Sound) (hpos : 0 ≤ fd) (hnew : p.table.find? fd = none) :
    (p.opens fd).ledger = p.ledger := by
  refine congrArg (Ownership.Ledger.mk · p.log) (funext fun address => ?_)
  refine @holds_congr p (p.opens fd) address rfl fun object hfind => ?_
  exact (FlatMap.find?_insert _ _ _ _).trans (if_neg (h.ne_of_closed hfind hpos hnew))

/-- The kernel opens a number. -/
theorem opens (h : p.Sound) (hpos : 0 ≤ fd) (hnew : p.table.find? fd = none) :
    (p.opens fd).Sound := by
  refine ⟨fun {fd' opening} hfind => ?_, fun {address object} hfind => ?_, fun hmem => ?_,
    h.unstrayed, ?_⟩
  · have hfind : (p.table.insert fd p.openings).find? fd' = some opening := hfind
    rw [FlatMap.find?_insert] at hfind
    split_ifs at hfind with hsame
    · exact ⟨hsame ▸ hpos, Option.some.inj hfind ▸ Nat.lt_succ_self _⟩
    · obtain ⟨hpos', hlt⟩ := h.number hfind
      exact ⟨hpos', Nat.lt_succ_of_lt hlt⟩
  -- the number is new, so no object holds it yet
  · refine (h.valid hfind).imp_right fun ⟨opening, hopen⟩ => ⟨opening, ?_⟩
    exact (FlatMap.find?_insert _ _ _ _).trans
      ((if_neg (h.ne_of_closed hfind hpos hnew)).trans hopen)
  · exact Nat.lt_succ_of_lt (h.logged hmem)
  · rw [h.ledger_opens hpos hnew]
    exact h.history

/-- An object is made from a number that was not open. -/
theorem acquires (h : p.Sound) (hfree : p.objects.find? address = none) (hpos : 0 ≤ fd)
    (hnew : p.table.find? fd = none) : ((p.acquires fd).place address ⟨fd⟩).Sound := by
  have hopens := h.opens hpos hnew
  have hopen : (p.table.insert fd p.openings).find? fd = some p.openings :=
    FlatMap.find?_insert_self _ _ _
  refine ⟨hopens.number, fun {address' object} hfind => ?_, fun {d} hmem => ?_, h.unstrayed, ?_⟩
  · have hfind : (p.objects.insert address ⟨fd⟩).find? address' = some object := hfind
    rw [FlatMap.find?_insert] at hfind
    split_ifs at hfind
    · obtain rfl := Option.some.inj hfind
      exact .inr ⟨p.openings, hopen⟩
    · exact hopens.valid hfind
  · rcases List.mem_append.mp hmem with hold | hadded
    · exact hopens.logged hold
    · cases List.mem_singleton.mp hadded
      exact Nat.lt_succ_self _
  · have hd : (p.acquires fd).descriptor? fd = some ⟨fd, p.openings⟩ := descriptor?_of_open hopen
    have hholds : ((p.acquires fd).place address ⟨fd⟩).ledger.holds =
        Function.update p.ledger.holds address (some ⟨fd, p.openings⟩) := by
      have hsame : (p.acquires fd).ledger.holds = p.ledger.holds := by
        show (p.opens fd).ledger.holds = p.ledger.holds
        rw [h.ledger_opens hpos hnew]
      rw [holds_place, hd, hsame]
    have hledger : ((p.acquires fd).place address ⟨fd⟩).ledger =
        ⟨Function.update p.ledger.holds address (some ⟨fd, p.openings⟩),
          p.log ++ [.acquired ⟨fd, p.openings⟩]⟩ :=
      congrArg (Ownership.Ledger.mk · _) hholds
    rw [hledger]
    -- the opening is counted up, so this descriptor is in no log yet
    exact h.history.tail (.acquire (holds_of_free hfree)
      fun hlogged => Nat.lt_irrefl _ (h.logged hlogged))

/-- An object's descriptor passes to another object, which has none. -/
theorem move (h : p.Sound) (hne : other ≠ address) (hfree : p.ledger.holds address = none)
    (hfind : p.objects.find? other = some object) :
    ((p.place other ⟨-1⟩).place address ⟨object.fd⟩).Sound := by
  refine ⟨h.number, fun {address' object'} hfind' => ?_, h.logged, h.unstrayed, ?_⟩
  · have hfind' : ((p.objects.insert other ⟨-1⟩).insert address ⟨object.fd⟩).find? address' =
      some object' := hfind'
    rw [FlatMap.find?_insert, FlatMap.find?_insert] at hfind'
    split_ifs at hfind'
    · obtain rfl := Option.some.inj hfind'
      exact h.valid hfind
    · exact .inl (Option.some.inj hfind' ▸ rfl)
    · exact h.valid hfind'
  · have hholds : ((p.place other ⟨-1⟩).place address ⟨object.fd⟩).ledger.holds =
        Function.update (Function.update p.ledger.holds other none) address
          (p.ledger.holds other) := by
      rw [holds_place, holds_place, h.descriptor?_empty, holds_of_find? hfind]
      rfl
    have hledger : ((p.place other ⟨-1⟩).place address ⟨object.fd⟩).ledger = ⟨_, p.log⟩ :=
      congrArg (Ownership.Ledger.mk · _) hholds
    rw [hledger]
    -- the source is emptied in the same step, so there is one owner throughout
    exact h.history.tail (.transfer hne hfree)

/-- An object that has no number to close holds nothing. -/
theorem holds_none (h : p.Sound) (hfind : p.objects.find? address = some self)
    (hneg : ¬ 0 ≤ self.fd) : self.fd = -1 ∧ p.ledger.holds address = none := by
  rcases h.valid hfind with hempty | ⟨opening, hopen⟩
  · rw [holds_of_find? hfind, hempty]
    exact ⟨rfl, h.descriptor?_empty⟩
  · exact absurd (h.number hopen).1 hneg

/-- To close an open descriptor takes it from the table and logs it. -/
theorem close_of_open (hpos : 0 ≤ self.fd) (hopen : p.table.find? self.fd = some opening) :
    p.close self.closes =
      { p with table := p.table.erase self.fd, log := p.log ++ [.closed ⟨self.fd, opening⟩] } := by
  rw [FileDescriptor.closes, if_pos hpos, Process.close, descriptor?_of_open hopen]

/-- No other object has the number that an object closes. -/
theorem find?_erase_of_ne (h : p.Sound) (hfind : p.objects.find? address = some self)
    (hpos : 0 ≤ self.fd) (hne : other ≠ address) (hother : p.objects.find? other = some object) :
    (p.table.erase self.fd).find? object.fd = p.table.find? object.fd := by
  have hne' : self.fd ≠ object.fd := fun hsame =>
    hne (h.unique hfind hother (decide_eq_true hpos) hsame).symm
  rw [FlatMap.find?_erase, if_neg hne']

/-- An object closes what it holds, and is empty then. -/
theorem close (h : p.Sound) (hfind : p.objects.find? address = some self) :
    ((p.close self.closes).place address ⟨-1⟩).Sound := by
  -- a negative number owns nothing, and `close` does nothing
  by_cases hpos : 0 ≤ self.fd
  · obtain ⟨opening, hopen⟩ : ∃ opening, p.table.find? self.fd = some opening :=
      (h.valid hfind).resolve_left (by omega)
    rw [close_of_open hpos hopen]
    refine ⟨fun {fd' opening'} hfind' => ?_, fun {address' object} hfind' => ?_, fun {d} hmem => ?_,
      h.unstrayed, ?_⟩
    · have hfind' : (p.table.erase self.fd).find? fd' = some opening' := hfind'
      rw [FlatMap.find?_erase] at hfind'
      split_ifs at hfind'
      exact h.number hfind'
    · rcases find?_place_empty hfind' with hempty | ⟨hne, hfind'⟩
      · exact .inl hempty
      · refine (h.valid hfind').imp_right fun ⟨opening', hopen'⟩ => ⟨opening', ?_⟩
        exact (h.find?_erase_of_ne hfind hpos hne hfind').trans hopen'
    · rcases List.mem_append.mp hmem with hold | hadded
      · exact h.logged hold
      · cases List.mem_singleton.mp hadded
    -- the number leaves the table and the object with one entry in the log
    · have hempty : ((p.table.erase self.fd).find? (-1)).map (Descriptor.mk (-1)) = none := by
        rw [FlatMap.find?_erase]
        split_ifs
        · rfl
        · exact h.descriptor?_empty
      have hledger := ledger_place_empty p { p with
          table := p.table.erase self.fd
          log := p.log ++ [.closed ⟨self.fd, opening⟩] } hempty fun other hne =>
        holds_congr rfl fun object => h.find?_erase_of_ne hfind hpos hne
      rw [hledger]
      exact h.history.tail (.close ((holds_of_find? hfind).trans (descriptor?_of_open hopen)))
  · obtain ⟨-, hfree⟩ := h.holds_none hfind hpos
    rw [FileDescriptor.closes, if_neg hpos]
    exact h.place_empty hfree

/-- An object hands over what it holds, and is empty then. -/
theorem handOver (h : p.Sound) (hfind : p.objects.find? address = some self) :
    ((p.handOver self.fd).place address ⟨-1⟩).Sound := by
  have hholds := holds_of_find? hfind
  rw [Process.handOver]
  -- nothing was owned, or the descriptor goes to the caller open
  cases hd : p.descriptor? self.fd with
  | none => exact h.place_empty (hholds.trans hd)
  | some d =>
    refine ⟨h.number, fun {address' object} hfind' => ?_, fun {d'} hmem => ?_, h.unstrayed, ?_⟩
    · rcases find?_place_empty hfind' with hempty | ⟨-, hfind'⟩
      · exact .inl hempty
      · exact h.valid hfind'
    · rcases List.mem_append.mp hmem with hold | hadded
      · exact h.logged hold
      · cases List.mem_singleton.mp hadded
    · have hledger := ledger_place_empty p { p with log := p.log ++ [.released d] }
        h.descriptor?_empty fun other (_ : other ≠ address) => rfl
      rw [hledger]
      exact h.history.tail (.release (hholds.trans hd))

/-- The rest of the process closes a number that no object has. -/
theorem closesElsewhere (h : p.Sound)
    (hnone : ∀ address object, p.objects.find? address = some object → fd ≠ object.fd) :
    Sound { p with table := p.table.erase fd } := by
  -- the number closed is held by no object, so what they hold stays open
  have hsame {address : Nat} {object : FileDescriptor}
      (hfind : p.objects.find? address = some object) :
      (p.table.erase fd).find? object.fd = p.table.find? object.fd := by
    rw [FlatMap.find?_erase, if_neg (hnone address object hfind)]
  refine ⟨fun {fd' opening} hfind => ?_, fun {address object} hfind => ?_, h.logged, h.unstrayed,
    ?_⟩
  · have hfind : (p.table.erase fd).find? fd' = some opening := hfind
    rw [FlatMap.find?_erase] at hfind
    split_ifs at hfind
    exact h.number hfind
  · exact (h.valid hfind).imp_right fun ⟨opening, hopen⟩ => ⟨opening, (hsame hfind).trans hopen⟩
  · have hledger : ledger { p with table := p.table.erase fd } = p.ledger := by
      refine congrArg (Ownership.Ledger.mk · p.log) (funext fun address => ?_)
      exact holds_congr rfl fun object => hsame
    rw [hledger]
    exact h.history

/-- An object that has been emptied holds nothing. -/
theorem holds_place_empty (h : (p.place address ⟨-1⟩).Sound) :
    (p.place address ⟨-1⟩).ledger.holds address = none :=
  (holds_of_find? (FlatMap.find?_insert_self _ _ _)).trans h.descriptor?_empty

/-- What an object held is closed before it takes over what another one holds. -/
theorem moveAssign (h : p.Sound) (hne : address ≠ other)
    (hself : p.objects.find? address = some self)
    (hobject : p.objects.find? other = some object) :
    (((p.close self.closes).place other ⟨-1⟩).place address ⟨object.fd⟩).Sound := by
  have hclosed := h.close hself
  have hkept : ((p.close self.closes).place address ⟨-1⟩).objects.find? other = some object := by
    show ((p.close self.closes).objects.insert address ⟨-1⟩).find? other = some object
    rw [FlatMap.find?_insert, if_neg hne, objects_close, hobject]
  have hmoved := hclosed.move (Ne.symm hne) hclosed.holds_place_empty hkept
  rwa [place_absorbs] at hmoved

/-- What an object held is closed before it goes. -/
theorem destroy (h : p.Sound) (hfind : p.objects.find? address = some self) :
    Sound { p.close self.closes with objects := (p.close self.closes).objects.erase address } := by
  have hclosed := h.close hfind
  have hremoved := hclosed.remove hclosed.holds_place_empty
  have herase : ((p.close self.closes).objects.insert address ⟨-1⟩).erase address =
      (p.close self.closes).objects.erase address :=
    FlatMap.erase_put _ address (some (⟨-1⟩ : FileDescriptor))
  rw [← herase]
  exact hremoved

/-! ## Every step -/

/-- **Each step keeps the invariant.** -/
theorem step (h : p.Sound) {op : Op} (hstep : p.step op = some p') : p'.Sound := by
  cases op with
  | construct address fd =>
    rw [Process.step] at hstep
    split_ifs at hstep with htaken hempty hnew
    · have hfree := FlatMap.contains_eq_false.mp (Bool.eq_false_of_not_eq_true htaken)
      rw [← Option.some.inj hstep]
      exact h.place_empty (holds_of_free hfree)
    · have hfree := FlatMap.contains_eq_false.mp (Bool.eq_false_of_not_eq_true htaken)
      rw [← Option.some.inj hstep]
      exact h.acquires hfree hnew.1 (FlatMap.contains_eq_false.mp hnew.2)
  | moveConstruct address other =>
    rw [Process.step] at hstep
    split_ifs at hstep with htaken
    have hfree := FlatMap.contains_eq_false.mp (Bool.eq_false_of_not_eq_true htaken)
    obtain ⟨object, hfind, hafter⟩ := Option.map_eq_some_iff.mp hstep
    have hne : other ≠ address := by
      rintro rfl
      cases hfind.symm.trans hfree
    rw [← hafter]
    exact h.move hne (holds_of_free hfree) hfind
  | moveAssign address other =>
    rw [Process.step] at hstep
    split at hstep
    · rename_i self object hself hobject
      -- assigning an object to itself changes nothing
      split_ifs at hstep with hne
      · rw [← Option.some.inj hstep]
        exact h.moveAssign hne hself hobject
      · rw [← Option.some.inj hstep]
        exact h
    · cases hstep
  | release address =>
    obtain ⟨self, hfind, hafter⟩ := Option.map_eq_some_iff.mp hstep
    rw [← hafter]
    exact h.handOver hfind
  | destroy address =>
    obtain ⟨self, hfind, hafter⟩ := Option.map_eq_some_iff.mp hstep
    rw [← hafter]
    exact h.destroy hfind
  | opensElsewhere fd =>
    rw [Process.step] at hstep
    split_ifs at hstep with hnew
    rw [← Option.some.inj hstep]
    exact h.opens hnew.1 (FlatMap.contains_eq_false.mp hnew.2)
  | closesElsewhere fd =>
    rw [Process.step] at hstep
    split_ifs at hstep with hnone
    rw [← Option.some.inj hstep]
    refine h.closesElsewhere fun address object hfind => ?_
    have hmem : object ∈ p.objects.values :=
      List.mem_map.mpr ⟨(address, object), p.objects.mem_entries_iff.mpr hfind, rfl⟩
    have hne := List.all_eq_true.mp hnone object hmem
    exact (of_decide_eq_true hne).symm

/-- **Each run keeps the invariant.** -/
theorem run (ops : List Op) : ∀ {p p' : Process}, p.Sound → p.run ops = some p' → p'.Sound := by
  induction ops with
  | nil => exact fun h hrun => Option.some.inj hrun ▸ h
  | cons op ops ih =>
    intro p p' h hrun
    obtain ⟨next, hstep, hrest⟩ := Option.bind_eq_some_iff.mp hrun
    exact ih (h.step hstep) hrest

end Sound

end Process

/-- **A descriptor has one owner, and is closed once.** After any run, two objects with one valid
number are one object; each descriptor that an object was made from has been closed at most once
by the class, never if it was released, and exactly once if it was not and no object is left; and
`close` has never been called with a number that was not open. -/
theorem descriptors_owned_once (ops : List Process.Op) {p : Process}
    (hrun : Process.run {} ops = some p) :
    (∀ address other self object, p.objects.find? address = some self →
      p.objects.find? other = some object → self.isValid = true → self.get = object.get →
      address = other) ∧
    (∀ d, p.log.count (.closed d) ≤ 1) ∧
    (∀ d, .acquired d ∈ p.log → .released d ∉ p.log →
      (∀ address, p.objects.find? address = none) → p.log.count (.closed d) = 1) ∧
    (∀ d, .released d ∈ p.log → .closed d ∉ p.log) ∧
    p.stray = [] := by
  have hsound := Process.sound_empty.run ops hrun
  have hkept := Ownership.kept_of_reaches hsound.history
  refine ⟨fun address other self object => hsound.unique, hkept.closed_le_one,
    fun d hacquired hreleased hnone => ?_, fun d => hkept.not_closed_of_released,
    hsound.unstrayed⟩
  refine hkept.closed_once hacquired hreleased fun address hholds => ?_
  -- with every object gone the ledger has no owner left
  rw [Process.holds_of_free (hnone address)] at hholds
  cases hholds

/-- A number that is used again, an object assigned over and to itself, and a release. -/
theorem descriptors_owned_once_reused :
    let ops : List Process.Op := [.construct 1 7, .construct 2 8, .moveAssign 1 2,
      .moveAssign 1 1, .construct 3 7, .moveConstruct 4 3, .release 4, .destroy 1, .destroy 4]
    ∃ p, Process.run {} ops = some p ∧
      p.log = [.acquired ⟨7, 0⟩, .acquired ⟨8, 1⟩, .closed ⟨7, 0⟩, .acquired ⟨7, 2⟩,
        .released ⟨7, 2⟩, .closed ⟨8, 1⟩] ∧
      .closed ⟨7, 2⟩ ∉ p.log ∧ p.stray = [] := by
  intro ops
  refine ⟨_, rfl, rfl, ?_⟩
  obtain ⟨-, -, -, hreleased, hstray⟩ := descriptors_owned_once ops rfl
  exact ⟨hreleased ⟨7, 2⟩ (by decide), hstray⟩

end Redix
