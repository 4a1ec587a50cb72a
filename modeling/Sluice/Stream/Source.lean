import Sluice.Fault

namespace Sluice

inductive Gap
  /-- The source claims to be at its end. -/
  | dry
  | fail (failure : Failure)

inductive Item
  | chunk (bytes : ByteArray)
  | gap (gap : Gap)

structure Source where
  queue : List Item
  /-- For each of the next fills, whether a gap is met in place of the queue. -/
  ahead : List (Option Gap) := []
  fills : Nat := 0

namespace Item

def size : Item → Nat
  | chunk bytes => bytes.size
  | gap _ => 0

def bytes : Item → ByteArray
  | chunk bytes => bytes
  | gap _ => .empty

def isSpent : Item → Bool
  | chunk bytes => bytes.isEmpty
  | gap _ => false

end Item

def Gap.answer : Gap → Except Failure ByteArray
  | dry => .ok .empty
  | fail f => .error f

namespace Source

def totalSize (queue : List Item) : Nat := queue.foldr (·.size + ·) 0

def left (s : Source) : Nat := totalSize s.queue

def rest (s : Source) : ByteArray := s.queue.foldl (fun acc i => acc ++ i.bytes) .empty

/-- What the queue shows, and the queue after a gap was met. -/
def front (queue : List Item) : Except Failure ByteArray × List Item :=
  match queue.dropWhile Item.isSpent with
  | [] => (.ok .empty, [])
  | .chunk bytes :: queue => (.ok bytes, .chunk bytes :: queue)
  | .gap g :: queue => (g.answer, queue)

/-- Show the next bytes without consuming them; no bytes are shown at the end. -/
def fill (s : Source) : Except Failure ByteArray × Source :=
  let s' := { s with ahead := s.ahead.tail, fills := s.fills + 1 }
  match s.ahead.head? with
  | some (some g) => (g.answer, s')
  | _ =>
    let (shown, queue) := front s.queue
    (shown, { s' with queue })

def consume (s : Source) (n : Nat) : Source :=
  match s.queue with
  | .chunk bytes :: queue =>
    if n < bytes.size then { s with queue := .chunk (bytes.extract n bytes.size) :: queue }
    else { s with queue }
  | _ => s

def push (s : Source) (bytes : ByteArray) : Source :=
  if bytes.isEmpty then s else { s with queue := s.queue ++ [.chunk bytes] }

/-- Bytes cut into chunks of `size`, the last one shorter. -/
def cut (size : Nat) (bytes : ByteArray) : List Item :=
  let n := max size 1
  (List.range ((bytes.size + n - 1) / n)).map fun i => .chunk (bytes.extract (i * n) (i * n + n))

def buffered (size : Nat) (bytes : ByteArray) : Source := { queue := cut size bytes }

@[simp] theorem totalSize_cons (i : Item) (queue : List Item) :
    totalSize (i :: queue) = i.size + totalSize queue := rfl

theorem totalSize_dropWhile_isSpent (queue : List Item) :
    totalSize (queue.dropWhile Item.isSpent) = totalSize queue := by
  induction queue with
  | nil => rfl
  | cons i queue ih =>
    rw [List.dropWhile_cons]
    split
    · cases i with
      | chunk bytes => simp_all [Item.isSpent, Item.size, ByteArray.isEmpty]
      | gap g => simp_all [Item.isSpent]
    · rfl

theorem left_consume_fill {s s' : Source} {shown : ByteArray} {n : Nat}
    (h : s.fill = (.ok shown, s')) (shows : shown.isEmpty = false) (moved : n ≠ 0) :
    (s'.consume n).left < s.left := by
  have hs : shown.size ≠ 0 := by simpa [ByteArray.isEmpty] using shows
  unfold fill at h
  simp only at h
  split at h
  · rename_i g _
    cases g <;> simp [Gap.answer] at h
    exact absurd (congrArg ByteArray.size h.1.symm) (by simpa using hs)
  · unfold front at h
    have hsum := totalSize_dropWhile_isSpent s.queue
    unfold left
    rw [← hsum]
    split at h <;> rename_i heq <;> simp only [Prod.mk.injEq, Except.ok.injEq] at h
    · exact absurd (congrArg ByteArray.size h.1.symm) (by simpa using hs)
    · obtain ⟨rfl, rfl⟩ := h
      rw [heq]
      simp only [consume]
      split
      · simp only [totalSize_cons, Item.size, ByteArray.size_extract]
        omega
      · simp only [totalSize_cons, Item.size]
        omega
    · rename_i g _
      cases g <;> simp [Gap.answer] at h
      exact absurd (congrArg ByteArray.size h.1.symm) (by simpa using hs)

end Source

end Sluice
