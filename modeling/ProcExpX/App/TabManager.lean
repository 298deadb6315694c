import ProcExpX.App.ProcessesView
import ProcExpX.Library.Decimal

/-!
# The tab manager and the property windows

`TabManager` with the process view, and the two registries of property windows: the
view finds them by the keys of their processes, and the window menu by their names.
The two are pruned at different times of a frame. Of the menu only the pruning is
modelled, of a property window only its close button.
-/

namespace ProcExpX

open Library WinSys

/-- `ProcessProperties` with its base `WindowProperties`. -/
structure ProcessProperties where
  /-- `_name`. -/
  name : List UInt8
  /-- `_pi`. -/
  pi : Ref ProcessInfo
  /-- `WindowOpen`. -/
  windowOpen : Bool

/-- The constructor. -/
def ProcessProperties.make (name : List UInt8) (pi : Ref ProcessInfo) : ProcessProperties :=
  { name := name, pi := pi, windowOpen := true }

/-- How the runtime library writes a wide string in bytes, for the format `%ws`. A name
it cannot write ends the program already where its row is drawn. -/
structure Narrowing where
  /-- The bytes of a string. -/
  toBytes : WString → List UInt8
  /-- Only a NUL is written as one. -/
  nonzero : ∀ text, 0 ∉ text → 0 ∉ toBytes text

/-- The bytes of a name in plain English, without any other characters. -/
def Narrowing.plain : Narrowing where
  toBytes text := (text.filter fun c => 0 < c.toNat ∧ c.toNat < 128).map UInt16.toUInt8
  nonzero text _ hzero := by
    obtain ⟨c, hc, hbyte⟩ := List.mem_map.mp hzero
    have hrange : 0 < c.toNat ∧ c.toNat < 128 := by simpa using (List.mem_filter.mp hc).2
    have hnat : c.toNat % 256 = 0 := congrArg UInt8.toNat hbyte
    omega

/-- The format of the name of a property window. -/
def formatName (image : List UInt8) (pid : ℕ) (createTime : ℤ) : List UInt8 :=
  image ++ ascii [' ', '('] ++ decimal pid ++ ascii ") Properties##".toList ++
    signedDecimal createTime

/-- The name of the property window of a process, up to the first NUL. -/
def windowName (narrowing : Narrowing) (p : ProcessInfo) : List UInt8 :=
  (formatName (narrowing.toBytes (cStr p.processName)) p.id.toNat p.createTime.toInt).takeWhile
    (· ≠ 0)

/-- `TabManager`, its process view and the property windows of both. -/
structure TabManager where
  /-- `_procView`, with the clock and the history. -/
  session : Session
  /-- The `ProcessProperties` objects. -/
  objects : Heap ProcessProperties
  /-- `_processProperties` of the view. -/
  processProperties : UnorderedMap ProcessOrThreadKey (Ref ProcessProperties)
  /-- `_windows`. -/
  windows : UnorderedMap (List UInt8) (Ref ProcessProperties)

/-- What a frame meets, with the property windows. -/
structure TabFrame extends Frame where
  /-- The order in which the window menu goes through `_windows`. -/
  menuOrder : IterationOrder
  /-- The order in which `BuildWindow` goes through `_processProperties`. -/
  loopOrder : IterationOrder
  /-- The property windows whose close button is clicked. -/
  closed : Ref ProcessProperties → Bool

namespace TabManager

variable (t : TabManager)

/-- At the start there is no property window. -/
def initial (host : Host) (readings : ℕ → UInt64) : TabManager :=
  { session := Session.initial host readings
    objects := ⟨fun _ => .make [] ⟨0⟩, 0⟩
    processProperties := ∅
    windows := ∅ }

/-- The key of the process of a property window. -/
def keyOf (r : Ref ProcessProperties) : ProcessOrThreadKey :=
  t.session.view.key (t.objects.read r).pi

/-- `GetName`. -/
def nameOf (r : Ref ProcessProperties) : List UInt8 := (t.objects.read r).name

/-- Whether a window is open. -/
def isOpen (r : Ref ProcessProperties) : Bool := (t.objects.read r).windowOpen

/-- The pruning of `BuildWindowMenu`. -/
def buildWindowMenu (order : IterationOrder) : TabManager :=
  let names := ((order.arrange t.windows.entries).filter fun e => !t.isOpen e.2).map Sigma.fst
  { t with windows := t.windows.eraseAll names }

/-- `AddWindow`. -/
def addWindow (r : Ref ProcessProperties) : TabManager :=
  { t with windows := t.windows.insertNew (t.nameOf r) r }

/-- `GetOrAddProcessProperties`. -/
def getOrAddProcessProperties (narrowing : Narrowing) (pi : Ref ProcessInfo) : TabManager :=
  match t.processProperties.lookup (t.session.view.key pi) with
  | some _ => t
  | none =>
    let props := t.objects.fresh
    let object := ProcessProperties.make (windowName narrowing (t.session.view.pm.process pi)) pi
    addWindow
      { t with
        objects := t.objects.allocate object
        processProperties := t.processProperties.insertNew (t.session.view.key pi) props } props

/-- `BuildToolBar` and `BuildTable`, with the requests for properties that the view
made in between. No other part of it looks at the property windows. -/
def buildTable (host : Host) (narrowing : Narrowing) (f : Frame) : TabManager :=
  let session := t.session.buildWindow host f
  let requests := session.history.properties.drop t.session.history.properties.length
  requests.foldl (fun t pi => t.getOrAddProcessProperties narrowing pi)
    { t with session := session }

/-- The local state of the loop over the property windows in `BuildWindow`: the objects
and `keys`. -/
structure Closing where
  /-- The objects. -/
  objects : Heap ProcessProperties
  /-- `keys`. -/
  keys : List ProcessOrThreadKey

/-- The body of the loop: an open window is built, and a click on its close button
closes it; a window that was closed before is noted for removal. -/
def visitWindow (closed : Ref ProcessProperties → Bool) (l : Closing)
    (r : Ref ProcessProperties) : Closing :=
  let object := l.objects.read r
  if object.windowOpen then
    { l with objects := l.objects.write r { object with windowOpen := !closed r } }
  else { l with keys := l.keys ++ [t.session.view.key object.pi] }

/-- The loop over the property windows in `BuildWindow`. -/
def buildProperties (order : IterationOrder) (closed : Ref ProcessProperties → Bool) :
    TabManager :=
  let l := (t.processProperties.values order).foldl (t.visitWindow closed) ⟨t.objects, []⟩
  { t with objects := l.objects, processProperties := t.processProperties.eraseAll l.keys }

/-- One frame: the window menu, then the tables of the view, then its property windows. -/
def frame (host : Host) (narrowing : Narrowing) (f : TabFrame) : TabManager :=
  ((t.buildWindowMenu f.menuOrder).buildTable host narrowing f.toFrame).buildProperties
    f.loopOrder f.closed

/-- A run of frames. -/
def run (host : Host) (narrowing : Narrowing) (readings : ℕ → UInt64)
    (frames : List TabFrame) : TabManager :=
  frames.foldl (fun t f => t.frame host narrowing f) (initial host readings)

end TabManager

end ProcExpX
