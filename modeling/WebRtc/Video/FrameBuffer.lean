import WebRtc.Base.SequenceNumber
import WebRtc.Lib.OrderedMap

/-! `video_coding::FrameBuffer` (`frame_buffer2.cc`): frames are kept in key order until
everything they reference has been decoded.

`frames_` is a list of entries in key order and an iterator is the key it points at
(`none` for `end()`). `std::map` needs a strict order; `FrameKey::operator<` is one only
on keys whose picture ids are close together, so the results about this model ask for
that. The two counters of missing references are `size_t` in the source and integers
here: they are only compared with zero, and a counter decremented past zero is not zero
again for another `2 ^ 64` decrements.

`NextFrame` holds the lock twice, once to choose a frame and once to hand it out, and
other calls may come between; the two parts are two operations here. -/

namespace WebRtc.Video.Frames
open SequenceNumber OrderedMap

/-- Max number of frames the buffer will hold. -/
def kMaxFramesBuffered : Int := 600

/-- Max number of decoded frame info that will be saved. -/
def kMaxFramesHistory : Int := 50

/-- The maximum number of frames that can depend on a frame. -/
def kMaxNumDependentFrames : Nat := 8

structure FrameKey where
  pictureId : BitVec 16
  spatialLayer : BitVec 8
  deriving DecidableEq, Repr

/-- `FrameKey::operator<`. -/
def FrameKey.lt (a b : FrameKey) : Bool :=
  if a.pictureId = b.pictureId then a.spatialLayer.ult b.spatialLayer
  else aheadOf b.pictureId a.pictureId

/-- `FrameKey::operator<=`. -/
def FrameKey.le (a b : FrameKey) : Bool := !b.lt a

/-- The fields of `FrameObject` that the buffer reads or writes. -/
structure FrameObject where
  pictureId : BitVec 16
  spatialLayer : BitVec 8 := 0
  timestamp : BitVec 32 := 0
  references : List (BitVec 16) := []
  interLayerPredicted : Bool := false
  renderTime : Int := -1
  deriving DecidableEq, Repr

namespace FrameObject

def key (f : FrameObject) : FrameKey := ⟨f.pictureId, f.spatialLayer⟩

/-- The references of a frame on its own spatial layer. -/
def refKeys (f : FrameObject) : List FrameKey := f.references.map (⟨·, f.spatialLayer⟩)

/-- The frame of the same picture one spatial layer below. -/
def lowerLayer (f : FrameObject) : FrameKey := ⟨f.pictureId, f.spatialLayer - 1⟩

end FrameObject

structure FrameInfo where
  dependentFrames : List FrameKey := []
  numMissingContinuous : Int := 0
  numMissingDecodable : Int := 0
  continuous : Bool := false
  frame : Option FrameObject := none
  deriving DecidableEq, Repr

abbrev FrameMap := List (FrameKey × FrameInfo)

/-- `waiting` says that `NextFrame` has chosen a frame and not yet handed it out. -/
structure FrameBuffer where
  frames : FrameMap := []
  lastDecodedFrameTimestamp : BitVec 32 := 0
  lastDecodedFrame : Option FrameKey := none
  lastContinuousFrame : Option FrameKey := none
  nextFrame : Option FrameKey := none
  numFramesHistory : Int := 0
  numFramesBuffered : Int := 0
  stopped : Bool := false
  waiting : Bool := false
  deriving DecidableEq, Repr

/-- What makes the behaviour of the source undefined. -/
inductive Fault
  | dependentFramesOverflow
  | nullFrame
  | endDereference
  | outOfFuel
  deriving DecidableEq, Repr

/-- The entry of `k`, or a new one. -/
def info (m : FrameMap) (k : FrameKey) : FrameInfo := (find k m).getD {}

/-- `last_decoded_frame_it_ != frames_.end() && k <= last_decoded_frame_it_->first`. -/
def atOrBefore (last : Option FrameKey) (k : FrameKey) : Bool :=
  match last with
  | none => false
  | some l => k.le l

/-! ## `UpdateFrameInfoWithIncomingFrame` -/

def FrameInfo.addMissing (c d : Int) (i : FrameInfo) : FrameInfo :=
  { i with
    numMissingContinuous := i.numMissingContinuous + c
    numMissingDecodable := i.numMissingDecodable + d }

def FrameInfo.setMissing (n : Int) (i : FrameInfo) : FrameInfo :=
  { i with numMissingContinuous := n, numMissingDecodable := n }

def FrameInfo.addDependent (k : FrameKey) (i : FrameInfo) : FrameInfo :=
  { i with dependentFrames := i.dependentFrames ++ [k] }

/-- `ref_info->second.dependent_frames[num_dependent_frames] = key`. -/
def addBackwardReference (key refKey : FrameKey) (m : FrameMap) : Except Fault FrameMap :=
  if (info m refKey).dependentFrames.length < kMaxNumDependentFrames then
    .ok (modify refKey (·.addDependent key) m)
  else .error .dependentFramesOverflow

/-- The loop over the references; `false` when the frame can never be decoded. -/
def updateReferences (last : Option FrameKey) (key : FrameKey) :
    List FrameKey → FrameMap → Except Fault (FrameMap × Bool)
  | [], m => .ok (m, true)
  | refKey :: refs, m =>
    if atOrBefore last refKey then
      if (find refKey m).isNone then .ok (m, false)
      else updateReferences last key refs (modify key (·.addMissing (-1) (-1)) m)
    else
      let m := insertNew FrameKey.lt refKey {} m
      let m := if (info m refKey).continuous then modify key (·.addMissing (-1) 0) m else m
      match addBackwardReference key refKey m with
      | .error e => .error e
      | .ok m => updateReferences last key refs m

/-- The part of the function for `inter_layer_predicted`. -/
def updateLowerLayer (last : Option FrameKey) (key refKey : FrameKey) (m : FrameMap) :
    Except Fault FrameMap :=
  let m := modify key (·.addMissing 1 1) m
  let m := insertNew FrameKey.lt refKey {} m
  let m := if (info m refKey).continuous then modify key (·.addMissing (-1) 0) m else m
  if last = some refKey then .ok (modify key (·.addMissing 0 (-1)) m)
  else addBackwardReference key refKey m

def updateFrameInfoWithIncomingFrame (last : Option FrameKey) (frame : FrameObject)
    (m : FrameMap) : Except Fault (FrameMap × Bool) :=
  let m := modify frame.key (·.setMissing frame.references.length) m
  match updateReferences last frame.key frame.refKeys m with
  | .error e => .error e
  | .ok (m, false) => .ok (m, false)
  | .ok (m, true) =>
    if frame.interLayerPredicted then
      match updateLowerLayer last frame.key frame.lowerLayer m with
      | .error e => .error e
      | .ok m => .ok (m, true)
    else .ok (m, true)

/-! ## `PropagateContinuity` -/

def FrameInfo.setContinuous (i : FrameInfo) : FrameInfo := { i with continuous := true }

/-- The inner loop: one missing reference less for each dependent frame; the frames that
miss nothing any more are continuous and join the queue. -/
def propagateToDependents : List FrameKey → FrameMap → List FrameKey →
    Except Fault (FrameMap × List FrameKey)
  | [], m, queue => .ok (m, queue)
  | d :: deps, m, queue =>
    match find d m with
    | none => .error .endDereference
    | some i =>
      let m := modify d (·.addMissing (-1) 0) m
      if i.numMissingContinuous - 1 = 0 then
        propagateToDependents deps (modify d (·.setContinuous) m) (queue ++ [d])
      else propagateToDependents deps m queue

/-- The breadth first search; `last` is `last_continuous_frame_it_`. -/
def propagateLoop : Nat → List FrameKey → FrameKey → FrameMap →
    Except Fault (FrameMap × FrameKey)
  | _, [], last, m => .ok (m, last)
  | 0, _ :: _, _, _ => .error .outOfFuel
  | fuel + 1, k :: queue, last, m =>
    let last := if last.lt k then k else last
    match propagateToDependents (info m k).dependentFrames m queue with
    | .error e => .error e
    | .ok (m, queue) => propagateLoop fuel queue last m

/-- Every entry is pushed at most once, by the decrement that takes its counter to zero. -/
def propagateContinuity (start : FrameKey) (b : FrameBuffer) : Except Fault FrameBuffer :=
  match propagateLoop (b.frames.length + 1) [start] (b.lastContinuousFrame.getD start) b.frames with
  | .error e => .error e
  | .ok (m, last) => .ok { b with frames := m, lastContinuousFrame := some last }

/-! ## `InsertFrame` -/

def clearFramesAndHistory (b : FrameBuffer) : FrameBuffer :=
  { b with
    frames := []
    lastDecodedFrame := none
    lastContinuousFrame := none
    nextFrame := none
    numFramesHistory := 0
    numFramesBuffered := 0 }

def lastContinuousPictureId (b : FrameBuffer) : Int :=
  match b.lastContinuousFrame with
  | none => -1
  | some k => k.pictureId.toNat

/-- The key comes before the last decoded frame. -/
def isOld (b : FrameBuffer) (frame : FrameObject) : Bool :=
  match b.lastDecodedFrame with
  | none => false
  | some l => frame.key.lt l

/-- A key frame with an old key and a newer timestamp: the picture id has jumped. -/
def jumps (b : FrameBuffer) (frame : FrameObject) : Bool :=
  isOld b frame && aheadOf frame.timestamp b.lastDecodedFrameTimestamp && frame.references.isEmpty

/-- The checks of `InsertFrame` before the map is touched: `none` when the frame is
dropped, otherwise the buffer, cleared after a jump of the picture id. -/
def admitFrame (b : FrameBuffer) (frame : FrameObject) : Option FrameBuffer :=
  if b.numFramesBuffered ≥ kMaxFramesBuffered then none
  else if frame.interLayerPredicted && frame.spatialLayer == 0 then none
  else if isOld b frame then
    if jumps b frame then some (clearFramesAndHistory b) else none
  else some b

/-- The new buffer, the return value, and whether the frame was stored. -/
structure Inserted where
  buffer : FrameBuffer
  lastContinuousPictureId : Int
  stored : Bool
  deriving DecidableEq, Repr

def FrameInfo.setFrame (f : Option FrameObject) (i : FrameInfo) : FrameInfo := { i with frame := f }

/-- `InsertFrame` once the frame has passed the checks. -/
def storeFrame (b : FrameBuffer) (frame : FrameObject) : Except Fault Inserted :=
  let m := insertNew FrameKey.lt frame.key {} b.frames
  if (info m frame.key).frame.isSome then
    .ok ⟨{ b with frames := m }, lastContinuousPictureId b, false⟩
  else
    match updateFrameInfoWithIncomingFrame b.lastDecodedFrame frame m with
    | .error e => .error e
    | .ok (m, false) => .ok ⟨{ b with frames := m }, lastContinuousPictureId b, false⟩
    | .ok (m, true) =>
      let b := { b with
        frames := modify frame.key (·.setFrame (some frame)) m
        numFramesBuffered := b.numFramesBuffered + 1 }
      if (info m frame.key).numMissingContinuous = 0 then
        match propagateContinuity frame.key
            { b with frames := modify frame.key (·.setContinuous) b.frames } with
        | .error e => .error e
        | .ok b => .ok ⟨b, lastContinuousPictureId b, true⟩
      else .ok ⟨b, lastContinuousPictureId b, true⟩

def insertFrame (b : FrameBuffer) (frame : FrameObject) : Except Fault Inserted :=
  match admitFrame b frame with
  | none => .ok ⟨b, lastContinuousPictureId b, false⟩
  | some b => storeFrame b frame

/-! ## `NextFrame` -/

/-- `VCMTiming` as `NextFrame` sees it at one moment. -/
structure Timing where
  renderTimeMs : BitVec 32 → Int
  maxWaitingTime : Int → Int

/-- The entries after `last_decoded_frame_it_`. -/
def undecoded (b : FrameBuffer) : FrameMap :=
  match b.lastDecodedFrame with
  | none => b.frames
  | some l => after l b.frames

/-- The entries up to `last_decoded_frame_it_`. -/
def decoded (b : FrameBuffer) : FrameMap :=
  match b.lastDecodedFrame with
  | none => []
  | some l => upTo l b.frames

/-- `continuous_end_it`: the first entry after the last continuous frame. -/
def continuousEnd (b : FrameBuffer) : Option FrameKey :=
  match b.lastContinuousFrame with
  | none => none
  | some c => ((after c b.frames).head?).map Prod.fst

/-- `SetRenderTime` for a frame that has no render time yet. -/
def withRenderTime (t : Timing) (f : FrameObject) : FrameObject :=
  if f.renderTime = -1 then { f with renderTime := t.renderTimeMs f.timestamp } else f

/-- The selection loop: the entries with their render times, and `next_frame_it_`. -/
def selectLoop (t : Timing) (endKey : Option FrameKey) :
    FrameMap → Option FrameKey → Except Fault (FrameMap × Option FrameKey)
  | [], next => if endKey.isNone then .ok ([], next) else .error .endDereference
  | (k, i) :: rest, next =>
    if endKey = some k then .ok ((k, i) :: rest, next)
    else if !i.continuous || i.numMissingDecodable != 0 then
      match selectLoop t endKey rest next with
      | .error e => .error e
      | .ok (rest, next) => .ok ((k, i) :: rest, next)
    else
      match i.frame with
      | none => .error .nullFrame
      | some f =>
        let f := withRenderTime t f
        if t.maxWaitingTime f.renderTime = 0 then
          match selectLoop t endKey rest (some k) with
          | .error e => .error e
          | .ok (rest, next) => .ok ((k, i.setFrame (some f)) :: rest, next)
        else .ok ((k, i.setFrame (some f)) :: rest, some k)

/-- The first critical section of `NextFrame`. -/
def selectFrame (t : Timing) (b : FrameBuffer) : Except Fault FrameBuffer :=
  if b.stopped then .ok { b with waiting := false }
  else
    match selectLoop t (continuousEnd b) (undecoded b) none with
    | .error e => .error e
    | .ok (rest, next) =>
      .ok { b with frames := decoded b ++ rest, nextFrame := next, waiting := true }

def propagateDecodability : List FrameKey → FrameMap → Except Fault FrameMap
  | [], m => .ok m
  | d :: deps, m =>
    match find d m with
    | none => .error .endDereference
    | some _ => propagateDecodability deps (modify d (·.addMissing 0 (-1)) m)

/-- `while (last_decoded_frame_it_ != decoded)`: drop what was not decoded. -/
def eraseUntil (key : FrameKey) : FrameMap → Int → Except Fault (FrameMap × Int)
  | [], _ => .error .endDereference
  | (k, i) :: rest, buffered =>
    if k = key then .ok ((k, i) :: rest, buffered)
    else eraseUntil key rest (if i.frame.isSome then buffered - 1 else buffered)

def advanceLastDecodedFrame (key : FrameKey) (b : FrameBuffer) : Except Fault FrameBuffer :=
  match eraseUntil key (undecoded b) (b.numFramesBuffered - 1) with
  | .error e => .error e
  | .ok (rest, buffered) =>
    let b := { b with
      frames := decoded b ++ rest
      lastDecodedFrame := some key
      numFramesBuffered := buffered
      numFramesHistory := b.numFramesHistory + 1 }
    if b.numFramesHistory > kMaxFramesHistory then
      .ok { b with frames := b.frames.tail, numFramesHistory := b.numFramesHistory - 1 }
    else .ok b

/-- The second critical section of `NextFrame`: the frame it returns, if any. -/
def returnFrame (b : FrameBuffer) : Except Fault (FrameBuffer × Option FrameObject) :=
  if !b.waiting then .ok (b, none)
  else
    match b.nextFrame with
    | none => .ok ({ b with waiting := false }, none)
    | some k =>
      match (info b.frames k).frame with
      | none => .error .nullFrame
      | some f =>
        let m := modify k (·.setFrame none) b.frames
        match propagateDecodability (info m k).dependentFrames m with
        | .error e => .error e
        | .ok m =>
          match advanceLastDecodedFrame k { b with frames := m } with
          | .error e => .error e
          | .ok b =>
            .ok ({ b with lastDecodedFrameTimestamp := f.timestamp, waiting := false }, some f)

/-! ## Runs -/

inductive Op
  | insertFrame (frame : FrameObject)
  | selectFrame (timing : Timing)
  | returnFrame
  | start
  | stop

/-- What a call hands to its caller: the value of `InsertFrame` or the frame of
`NextFrame`. -/
inductive Output
  | lastContinuous (pictureId : Int)
  | frame (f : Option FrameObject)
  | none
  deriving DecidableEq, Repr

def step (b : FrameBuffer) : Op → Except Fault (FrameBuffer × Output)
  | .insertFrame f =>
    match insertFrame b f with
    | .error e => .error e
    | .ok r => .ok (r.buffer, .lastContinuous r.lastContinuousPictureId)
  | .selectFrame t =>
    match selectFrame t b with
    | .error e => .error e
    | .ok b => .ok (b, .none)
  | .returnFrame =>
    match returnFrame b with
    | .error e => .error e
    | .ok (b, f) => .ok (b, .frame f)
  | .start => .ok ({ b with stopped := false }, .none)
  | .stop => .ok ({ b with stopped := true }, .none)

def run : FrameBuffer → List Op → Except Fault FrameBuffer
  | b, [] => .ok b
  | b, op :: ops =>
    match step b op with
    | .error e => .error e
    | .ok (b, _) => run b ops

/-- A call of `NextFrame` that nothing comes between, when every frame is due. -/
def nextFrameNow : List Op := [.selectFrame ⟨fun _ => 0, fun _ => 0⟩, .returnFrame]

/-- The call `op` takes the buffer from `b` to `b'`. -/
def Steps (b : FrameBuffer) (op : Op) (b' : FrameBuffer) : Prop :=
  ∃ out, step b op = .ok (b', out)

end WebRtc.Video.Frames
