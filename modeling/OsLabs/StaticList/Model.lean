import OsLabs.Foundation.Links

/-!
# A static linked list that is also a heap

`SLList_MinHeap.c`: student records in one array that is at the same time a
doubly linked list, through the array indices in `preNode` and `nextNode`, and a
binary min-heap by `id`, through the positions in the array.

Every access to the array and to the stack of unused indices is checked: the
functions return `none` where the program would read or write outside of them,
and where a loop would not end.
-/

namespace OsLabs
namespace StaticList

def MAXSIZE : Int := 1024

/-- A NUL-terminated text that fits into `char name[20]`. -/
abbrev Name := { bytes : List UInt8 // bytes.length < 20 ∧ (0 : UInt8) ∉ bytes }

structure Student where
  flag : Int
  id : Int
  name : Name
  preNode : Int
  nextNode : Int
deriving DecidableEq

structure Stack where
  index : Int -> Int
  top : Int

structure StaticLinkList where
  list : Int -> Student
  headIndex : Int
  size : Int
  unusedIndexs : Stack

def InBounds (i : Int) : Prop := 0 ≤ i ∧ i < MAXSIZE

instance (i : Int) : Decidable (InBounds i) := inferInstanceAs (Decidable (_ ∧ _))

/-!
# The stack of unused indices
-/

namespace Stack

def getIndex (stk : Stack) (i : Int) : Option Int :=
  if InBounds i then some (stk.index i) else none

def setIndex (stk : Stack) (i value : Int) : Option Stack :=
  if InBounds i then some { stk with index := Function.update stk.index i value } else none

end Stack

/-- The loop of `initiateStack` over the `k` entries from `i` on. -/
def initiateStackLoop : Nat -> Int -> Stack -> Option Stack
  | 0, _, stk => some { stk with top := MAXSIZE - 1 }
  | k + 1, i, stk => do
      let stk <- stk.setIndex i (MAXSIZE - i - 1)
      initiateStackLoop k (i + 1) stk

def initiateStack (stk : Stack) : Option Stack := initiateStackLoop MAXSIZE.toNat 0 stk

def pushStack (stk : Stack) (unusedIndex : Int) : Option Stack :=
  { stk with top := stk.top + 1 }.setIndex (stk.top + 1) unusedIndex

def popStack (stk : Stack) : Stack :=
  if stk.top = -1 then stk else { stk with top := stk.top - 1 }

def topStack (stk : Stack) : Option Int :=
  if stk.top = -1 then some (-1) else stk.getIndex stk.top

/-!
# The list
-/

namespace StaticLinkList

def node (lists : StaticLinkList) (i : Int) : Option Student :=
  if InBounds i then some (lists.list i) else none

/-- Write a record without looking at the bounds. -/
def put (lists : StaticLinkList) (i : Int) (stu : Student) : StaticLinkList :=
  { lists with list := Function.update lists.list i stu }

def modifyNode (lists : StaticLinkList) (i : Int) (f : Student -> Student) :
    Option StaticLinkList :=
  if InBounds i then some (lists.put i (f (lists.list i))) else none

def setPreNode (lists : StaticLinkList) (i value : Int) : Option StaticLinkList :=
  lists.modifyNode i fun stu => { stu with preNode := value }

def setNextNode (lists : StaticLinkList) (i value : Int) : Option StaticLinkList :=
  lists.modifyNode i fun stu => { stu with nextNode := value }

end StaticLinkList

open StaticLinkList

def initialStaticLinkList (lists : StaticLinkList) : Option StaticLinkList := do
  let stk <- initiateStack lists.unusedIndexs
  some { lists with headIndex := -1, size := 0, unusedIndexs := stk }

def insertListAtHead (lists : StaticLinkList) (stu : Student) : Option StaticLinkList := do
  let index <- topStack lists.unusedIndexs
  let lists := { lists with unusedIndexs := popStack lists.unusedIndexs }
  let lists <- lists.modifyNode index fun _ => stu
  let lists <- lists.modifyNode index fun stu => { stu with flag := 1 }
  let lists <- lists.setPreNode index (-1)
  let lists <- lists.setNextNode index lists.headIndex
  let lists <-
    (if lists.headIndex ≠ -1 then lists.setPreNode lists.headIndex index else some lists)
  some { lists with headIndex := index, size := lists.size + 1 }

/-- The loop of `printStaticLinkList`: the students it prints. -/
def printLoop (lists : StaticLinkList) : Nat -> Int -> Int -> Option (List Student)
  | 0, _, _ => none
  | fuel + 1, pre, next => do
      let stu <- lists.node pre
      if next = -1 then
        some [stu]
      else
        let nextStu <- lists.node next
        let rest <- printLoop lists fuel next nextStu.nextNode
        some (stu :: rest)

def printStaticLinkList (lists : StaticLinkList) : Option (List Student) :=
  if lists.headIndex = -1 then
    some []
  else do
    let stu <- lists.node lists.headIndex
    printLoop lists (MAXSIZE.toNat + 1) lists.headIndex stu.nextNode

/-!
# The heap
-/

/-- Exchange two records of the array, without moving the students in the list. -/
def swapHeapNode (heap : StaticLinkList) (parent child : Int) : Option StaticLinkList := do
  let parentStu <- heap.node parent
  let childStu <- heap.node child
  let heap <- heap.modifyNode parent fun _ => childStu
  let heap <- heap.modifyNode child fun _ => parentStu
  let heap <-
    (if parentStu.preNode ≠ -1 ∧ parentStu.preNode ≠ child then
      heap.setNextNode parentStu.preNode child
    else some heap)
  let heap <-
    (if parentStu.nextNode ≠ -1 ∧ parentStu.nextNode ≠ child then
      heap.setPreNode parentStu.nextNode child
    else some heap)
  let heap <-
    (if childStu.preNode ≠ -1 ∧ childStu.preNode ≠ parent then
      heap.setNextNode childStu.preNode parent
    else some heap)
  let heap <-
    (if childStu.nextNode ≠ -1 ∧ childStu.nextNode ≠ parent then
      heap.setPreNode childStu.nextNode parent
    else some heap)
  let heap <-
    (if parentStu.preNode = child then do
      let heap <- heap.setNextNode parent child
      heap.setPreNode child parent
    else some heap)
  let heap <-
    (if parentStu.nextNode = child then do
      let heap <- heap.setPreNode parent child
      heap.setNextNode child parent
    else some heap)
  let newParent <- heap.node parent
  let heap := if newParent.preNode = -1 then { heap with headIndex := parent } else heap
  let newChild <- heap.node child
  some (if newChild.preNode = -1 then { heap with headIndex := child } else heap)

/-- The child that the repair loop of `initialHeap` compares with. -/
def smallerChild (heap : StaticLinkList) (n child : Int) : Option Int :=
  if child + 1 < n then do
    let left <- heap.node child
    let right <- heap.node (child + 1)
    some (if left.id > right.id then child + 1 else child)
  else
    some child

def initialHeapInner (n tempId : Int) :
    Nat -> StaticLinkList -> Int -> Int -> Option StaticLinkList
  | 0, _, _, _ => none
  | fuel + 1, heap, parent, child =>
      if child < n then do
        let child <- smallerChild heap n child
        let childStu <- heap.node child
        if tempId > childStu.id then
          let heap <- swapHeapNode heap parent child
          initialHeapInner n tempId fuel heap child (2 * child + 1)
        else
          some heap
      else
        some heap

/-- The outer loop of `initialHeap`, for the indices below `k`, downwards. -/
def initialHeapOuter (n : Int) : Nat -> StaticLinkList -> Option StaticLinkList
  | 0, heap => some heap
  | k + 1, heap => do
      let temp <- heap.node k
      let heap <- initialHeapInner n temp.id (n.toNat + 1) heap k (2 * k + 1)
      initialHeapOuter n k heap

def initialHeap (heap : StaticLinkList) : Option StaticLinkList :=
  initialHeapOuter heap.size (heap.size.tdiv 2).toNat heap

/-- The loop of `pushHeap`; the index at which the new student ends is returned
as well. -/
def pushHeapLoop (id : Int) : Nat -> StaticLinkList -> Int -> Option (StaticLinkList × Int)
  | 0, _, _ => none
  | fuel + 1, heap, child => do
      let parent := (child - 1).tdiv 2
      let parentStu <- heap.node parent
      if id < parentStu.id ∧ child > 0 then
        let heap <- swapHeapNode heap parent child
        pushHeapLoop id fuel heap parent
      else
        some (heap, child)

/-- The common body of the two functions that add a student to the heap. -/
def pushStudent (heap : StaticLinkList) (id : Int) (name : Name) : Option StaticLinkList := do
  let child <- topStack heap.unusedIndexs
  let heap := { heap with unusedIndexs := popStack heap.unusedIndexs }
  let heap <- heap.modifyNode child fun stu => { stu with id := id }
  let heap <- heap.modifyNode child fun stu => { stu with name := name }
  let heap <-
    (if heap.headIndex ≠ -1 then heap.setPreNode heap.headIndex child else some heap)
  let heap <- heap.modifyNode child fun stu => { stu with flag := 1 }
  let heap <- heap.setPreNode child (-1)
  let heap <- heap.setNextNode child heap.headIndex
  let heap := { heap with size := heap.size + 1 }
  let (heap, child) <- pushHeapLoop id (MAXSIZE.toNat + 1) heap child
  some { heap with headIndex := child }

def pushHeap (heap : StaticLinkList) (stu : Student) : Option StaticLinkList :=
  pushStudent heap stu.id stu.name

def pushHeapByIdAndName (heap : StaticLinkList) (id : Int) (name : Name) :
    Option StaticLinkList :=
  pushStudent heap id name

/-- The loop of `popHeap` from the index `high` on. -/
def popHeapLoop (tempId : Int) : Nat -> StaticLinkList -> Int -> Option StaticLinkList
  | 0, _, _ => none
  | fuel + 1, heap, high =>
      if high * 2 + 1 < heap.size then do
        let low := high * 2 + 1
        let low <-
          (if low ≠ heap.size - 1 then do
            let left <- heap.node low
            let right <- heap.node (low + 1)
            some (if left.id > right.id then low + 1 else low)
          else
            some low)
        let lowStu <- heap.node low
        if lowStu.id < tempId then
          let heap <- swapHeapNode heap high low
          popHeapLoop tempId fuel heap low
        else
          some heap
      else
        some heap

/-- The end of `popHeap`: unlink the record behind the last one. -/
def unlinkRemoved (heap : StaticLinkList) : Option StaticLinkList := do
  let removed <- heap.node heap.size
  let heap <-
    (if removed.preNode ≠ -1 then heap.setNextNode removed.preNode removed.nextNode
    else some heap)
  let heap <-
    (if removed.nextNode ≠ -1 then heap.setPreNode removed.nextNode removed.preNode
    else some heap)
  some (if removed.preNode = -1 then { heap with headIndex := removed.nextNode } else heap)

def popHeap (heap : StaticLinkList) : Option StaticLinkList :=
  if heap.size = 0 then
    some heap
  else do
    let heap := { heap with size := heap.size - 1 }
    let temp <- heap.node heap.size
    let stk <- pushStack heap.unusedIndexs heap.size
    let heap := { heap with unusedIndexs := stk }
    let heap <- heap.modifyNode heap.headIndex fun stu => { stu with flag := 0 }
    if heap.size = 0 then
      some { heap with headIndex := -1 }
    else
      let heap <- swapHeapNode heap 0 heap.size
      let heap <- popHeapLoop temp.id (heap.size.toNat + 1) heap 0
      unlinkRemoved heap

def topHeap (heap : StaticLinkList) : Option Student := heap.node 0

def isEmptyHeap (heap : StaticLinkList) : Bool := heap.size = 0

/-- Pop until the heap is empty, and collect what `topHeap` returns. -/
def drainHeap : Nat -> StaticLinkList -> Option (List Student)
  | 0, heap => if isEmptyHeap heap then some [] else none
  | k + 1, heap =>
      if isEmptyHeap heap then
        some []
      else do
        let stu <- topHeap heap
        let heap <- popHeap heap
        let rest <- drainHeap k heap
        some (stu :: rest)

/-!
# Searching and changing records
-/

/-- The recursion of the three searches: the index of a record that matches, or
`-1`. -/
def findHeapBy (heap : StaticLinkList) (wanted : Student -> Bool) : Nat -> Int -> Option Int
  | 0, _ => none
  | fuel + 1, curIndex =>
      if curIndex ≥ heap.size then
        some (-1)
      else do
        let stu <- heap.node curIndex
        if wanted stu then
          some curIndex
        else
          let leftIndex <-
            (if curIndex * 2 + 1 < heap.size then
              findHeapBy heap wanted fuel (curIndex * 2 + 1)
            else some (-1))
          if leftIndex ≠ -1 then
            some leftIndex
          else
            let rightIndex <-
              (if curIndex * 2 + 2 < heap.size then
                findHeapBy heap wanted fuel (curIndex * 2 + 2)
              else some (-1))
            if rightIndex ≠ -1 then some rightIndex else some (-1)

def sameStudent (stu record : Student) : Bool :=
  decide (record.id = stu.id) && decide (record.name = stu.name)

def findHeap (heap : StaticLinkList) (stu : Student) (curIndex : Int) : Option Int :=
  findHeapBy heap (sameStudent stu) (MAXSIZE.toNat + 1) curIndex

def findHeapById (heap : StaticLinkList) (id curIndex : Int) : Option Int :=
  findHeapBy heap (fun record => record.id = id) (MAXSIZE.toNat + 1) curIndex

def findHeapByName (heap : StaticLinkList) (name : Name) (curIndex : Int) : Option Int :=
  findHeapBy heap (fun record => record.name = name) (MAXSIZE.toNat + 1) curIndex

def setId (id : Int) (stu : Student) : Student := { stu with id := id }

def setName (name : Name) (stu : Student) : Student := { stu with name := name }

/-- The list after a change, with what was printed. -/
abbrev Modified := StaticLinkList × List String

def notFound : String := "can't find the target student!\n"

/-- Change the record at `index`; the heap is rebuilt if the change is to an
`id`. -/
def changeAt (heap : StaticLinkList) (index : Int) (change : Student -> Student)
    (rebuild : Bool) : Option Modified := do
  let heap <- heap.modifyNode index change
  let heap <- (if rebuild then initialHeap heap else some heap)
  some (heap, [])

def modifyFound (heap : StaticLinkList) (stu : Student) (change : Student -> Student)
    (rebuild : Bool) : Option Modified := do
  let index <- findHeap heap stu 0
  if index = -1 then some (heap, [notFound]) else changeAt heap index change rebuild

def modifyByIndex (heap : StaticLinkList) (index : Int) (change : Student -> Student)
    (rebuild : Bool) : Option Modified :=
  if index ≥ heap.size then some (heap, [notFound]) else changeAt heap index change rebuild

def modifyId (heap : StaticLinkList) (stu : Student) (id : Int) : Option Modified :=
  modifyFound heap stu (setId id) true

def modifyName (heap : StaticLinkList) (stu : Student) (name : Name) : Option Modified :=
  modifyFound heap stu (setName name) false

def modifyIdAndName (heap : StaticLinkList) (stu : Student) (id : Int) (name : Name) :
    Option Modified :=
  modifyFound heap stu (fun record => setName name (setId id record)) true

def modifyIdByIndex (heap : StaticLinkList) (index id : Int) : Option Modified :=
  modifyByIndex heap index (setId id) true

def modifyNameByIndex (heap : StaticLinkList) (index : Int) (name : Name) : Option Modified :=
  modifyByIndex heap index (setName name) false

def modifyIdAndNameByIndex (heap : StaticLinkList) (index id : Int) (name : Name) :
    Option Modified :=
  modifyByIndex heap index (fun record => setName name (setId id record)) true

end StaticList
end OsLabs
