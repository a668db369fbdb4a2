import RowStore.Assoc
import RowStore.EvictionOrder
import RowStore.Lock.Mode
import RowStore.Page

/-!
# The Page Cache

A bounded number of page copies, kept in frames.

A page is resident when it has a frame. A caller that keeps a copy in use has a
handle on its frame, and the frame is pinned as long as a handle is on it. To
make room the cache takes the first page its order of eviction proposes that is
resident, clean and not pinned. A proposed page that is not resident is taken
off the order's record.

A page can be made to leave while handles are on its frame. The handles keep the
frame; the page, loaded again, gets another one. So a frame has a number of its
own, and a handle names the frame and not the page alone.

## Main definitions

* `Handle`: A caller's hold on a frame.
* `Cache`: The frames, which pages are resident, the handles and the order of eviction.
* `Cache.page?`: The copy of a resident page.
* `Cache.takeIn`: Taking in a page that was loaded, at the cost of another if need be.
* `Cache.discard`: Making a page leave.
* `Cache.pin`, `Cache.unpin`: Handles come and go.
-/

namespace RowStore

/-- A place for a copy of a page. -/
structure FrameNo where
  val : Nat
  deriving DecidableEq, Repr, Inhabited

/-- A hold on a frame that a caller keeps. -/
structure HandleNo where
  val : Nat
  deriving DecidableEq, Repr, Inhabited

/-- What a handle stands for: a frame fetched for a transaction to read or to write. -/
structure Handle where
  page : PageId
  frame : FrameNo
  txn : TxnId
  access : Access
  deriving DecidableEq, Repr

/-- The frames and what is known of them. -/
structure Cache (ρ : Type) where
  capacity : Nat
  resident : Assoc PageId FrameNo := ∅
  frames : Assoc FrameNo Page := ∅
  handles : Assoc HandleNo Handle := ∅
  nextFrame : Nat := 0
  nextHandle : Nat := 0
  order : ρ

namespace Cache

variable {ρ : Type}

/-- The copy in a frame. -/
def frame? (c : Cache ρ) (f : FrameNo) : Option Page := c.frames.get? f

/-- The copy of a resident page. -/
def page? (c : Cache ρ) (p : PageId) : Option Page := (c.resident.get? p).bind c.frame?

/-- Whether a page is resident. -/
def isResident (c : Cache ρ) (p : PageId) : Bool := c.resident.contains p

/-- Whether a page is resident and differs from its file. -/
def isDirty (c : Cache ρ) (p : PageId) : Bool := (c.page? p).any Page.isDirty

/-- The number of resident pages. -/
def size (c : Cache ρ) : Nat := c.resident.size

/-- Change the copy in a frame. -/
def updateFrame (c : Cache ρ) (f : FrameNo) (change : Page → Page) : Cache ρ :=
  { c with frames := c.frames.modify f change }

/-- Change the copy of a page, if it is resident. -/
def updatePage (c : Cache ρ) (p : PageId) (change : Page → Page) : Cache ρ :=
  match c.resident.get? p with
  | some f => c.updateFrame f change
  | none => c

/-- Whether a handle is on the frame. -/
def isPinned (c : Cache ρ) (f : FrameNo) : Bool := c.handles.values.any fun h => h.frame = f

/-- Whether the page in the frame may leave to make room. -/
def isEvictable (c : Cache ρ) (f : FrameNo) : Bool :=
  !c.isPinned f && !(c.frame? f).any Page.isDirty

/-- Put a handle on a frame. -/
def pin (c : Cache ρ) (h : Handle) : HandleNo × Cache ρ :=
  (⟨c.nextHandle⟩,
    { c with handles := c.handles.insert ⟨c.nextHandle⟩ h, nextHandle := c.nextHandle + 1 })

/-- Take a handle away. -/
def unpin (c : Cache ρ) (n : HandleNo) : Cache ρ := { c with handles := c.handles.erase n }

variable [EvictionOrder ρ]

/-- Note a use of a page. -/
def touch (c : Cache ρ) (p : PageId) : Cache ρ :=
  { c with order := EvictionOrder.touch c.order p }

/-- Take a page off the order's record. -/
def forget (c : Cache ρ) (p : PageId) : Cache ρ :=
  { c with order := EvictionOrder.remove c.order p }

/-- Have the first of the proposed pages that may leave do so. -/
def evictFrom (c : Cache ρ) : List PageId → Cache ρ × Bool
  | [] => (c, false)
  | p :: rest =>
    match c.resident.get? p with
    -- The record has a page that left by itself.
    | none => evictFrom (c.forget p) rest
    | some f =>
      if c.isEvictable f then
        ({ c with resident := c.resident.erase p, frames := c.frames.erase f }.forget p, true)
      else evictFrom c rest

/-- Have a page leave, if one may. -/
def evict (c : Cache ρ) : Cache ρ × Bool := c.evictFrom (EvictionOrder.candidates c.order)

/-- Give a page that was loaded a frame of its own. -/
def place (c : Cache ρ) (image : Page) : FrameNo × Cache ρ :=
  (⟨c.nextFrame⟩,
    { c with
      resident := c.resident.insert image.id ⟨c.nextFrame⟩
      frames := c.frames.insert ⟨c.nextFrame⟩ image
      nextFrame := c.nextFrame + 1 }.touch image.id)

/-- Take in a page that was loaded. A full cache first has another page leave; if none may, the
    page is not taken in. -/
def takeIn (c : Cache ρ) (image : Page) : Cache ρ × Option FrameNo :=
  if c.size < c.capacity then
    let (f, c') := c.place image
    (c', some f)
  else
    match c.evict with
    | (c', true) =>
      let (f, c'') := c'.place image
      (c'', some f)
    | (c', false) => (c', none)

/-- Make a page leave, whatever its state. Handles on it keep its frame. -/
def discard (c : Cache ρ) (p : PageId) : Cache ρ :=
  { c with resident := c.resident.erase p }.forget p

end Cache

end RowStore
