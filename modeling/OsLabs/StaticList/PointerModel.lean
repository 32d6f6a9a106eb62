import OsLabs.StaticList.Runs

/-!
# The list with growing arrays

`SLList_MinHeap_pointer.c`: the same list and heap, with arrays from `malloc` that are
replaced by arrays of twice the length when an insertion finds the list full.  `MAXSIZE`
is a variable here, and every access is checked against its value.

The exchange of two records leaves `headIndex` alone, and its callers set it; the loop of
`popHeap` ends after the first exchange.
-/

namespace OsLabs
namespace StaticList
namespace Pointer

open StaticLinkList

/-- What `malloc` leaves in new arrays of a given length. -/
structure Fresh where
  list : Int -> Int -> Student
  index : Int -> Int -> Int

/-- The list together with the global variable `MAXSIZE`. -/
structure PointerList where
  lists : StaticLinkList
  maxsize : Int

/-!
# Accesses
-/

def node (maxsize : Int) (lists : StaticLinkList) (i : Int) : Option Student :=
  if 0 ≤ i ∧ i < maxsize then some (lists.list i) else none

def modifyNode (maxsize : Int) (lists : StaticLinkList) (i : Int) (f : Student -> Student) :
    Option StaticLinkList :=
  if 0 ≤ i ∧ i < maxsize then some (lists.put i (f (lists.list i))) else none

def setPreNode (maxsize : Int) (lists : StaticLinkList) (i value : Int) :
    Option StaticLinkList :=
  modifyNode maxsize lists i fun stu => { stu with preNode := value }

def setNextNode (maxsize : Int) (lists : StaticLinkList) (i value : Int) :
    Option StaticLinkList :=
  modifyNode maxsize lists i fun stu => { stu with nextNode := value }

def getIndex (maxsize : Int) (stk : Stack) (i : Int) : Option Int :=
  if 0 ≤ i ∧ i < maxsize then some (stk.index i) else none

def setIndex (maxsize : Int) (stk : Stack) (i value : Int) : Option Stack :=
  if 0 ≤ i ∧ i < maxsize then
    some { stk with index := Function.update stk.index i value }
  else
    none

/-!
# The stack of unused indices
-/

def initiateStackLoop (maxsize : Int) : Nat -> Int -> Stack -> Option Stack
  | 0, _, stk => some { stk with top := maxsize - 1 }
  | k + 1, i, stk => do
      let stk <- setIndex maxsize stk i (maxsize - i - 1)
      initiateStackLoop maxsize k (i + 1) stk

def initiateStack (fresh : Fresh) (maxsize : Int) (stk : Stack) : Option Stack :=
  initiateStackLoop maxsize maxsize.toNat 0 { stk with index := fresh.index maxsize }

/-- The new array holds the old entries in its first half. -/
def doubleSizeStack (fresh : Fresh) (stk : Stack) (newSize : Int) : Stack :=
  { stk with
    index := fun i =>
      if 0 ≤ i ∧ i < newSize.tdiv 2 then stk.index i else fresh.index newSize i }

def pushStack (maxsize : Int) (stk : Stack) (unusedIndex : Int) : Option Stack :=
  setIndex maxsize { stk with top := stk.top + 1 } (stk.top + 1) unusedIndex

def topStack (maxsize : Int) (stk : Stack) : Option Int :=
  if stk.top = -1 then some (-1) else getIndex maxsize stk stk.top

/-!
# The list
-/

/-- The list in new memory; `stk` is what the stack was before. -/
def creatStaticLinkList (fresh : Fresh) (maxsize : Int) (stk : Stack) : Option PointerList := do
  let stk <- initiateStack fresh maxsize stk
  some
    { lists := { list := fresh.list maxsize, headIndex := -1, size := 0, unusedIndexs := stk }
      maxsize := maxsize }

def doubleSizeStaticLinkList (fresh : Fresh) (heap : PointerList) : PointerList :=
  let maxsize := heap.maxsize * 2
  { lists :=
      { heap.lists with
        list := fun i =>
          if 0 ≤ i ∧ i < maxsize.tdiv 2 then heap.lists.list i else fresh.list maxsize i
        unusedIndexs := doubleSizeStack fresh heap.lists.unusedIndexs maxsize }
    maxsize := maxsize }

/-- `insertListAtHead` after the list has been made larger if it was full. -/
def insertNode (maxsize : Int) (lists : StaticLinkList) (stu : Student) :
    Option StaticLinkList := do
  let index <- topStack maxsize lists.unusedIndexs
  let lists := { lists with unusedIndexs := popStack lists.unusedIndexs }
  let lists <- modifyNode maxsize lists index fun _ => stu
  let lists <- modifyNode maxsize lists index fun stu => { stu with flag := 1 }
  let lists <- setPreNode maxsize lists index (-1)
  let lists <- setNextNode maxsize lists index lists.headIndex
  let lists <-
    (if lists.headIndex ≠ -1 then setPreNode maxsize lists lists.headIndex index
    else some lists)
  some { lists with headIndex := index, size := lists.size + 1 }

def insertListAtHead (fresh : Fresh) (heap : PointerList) (stu : Student) :
    Option PointerList :=
  let heap :=
    if heap.lists.size = heap.maxsize then doubleSizeStaticLinkList fresh heap else heap
  (insertNode heap.maxsize heap.lists stu).map fun lists => { heap with lists := lists }

/-!
# The heap
-/

def swapHeapNode (maxsize : Int) (heap : StaticLinkList) (parent child : Int) :
    Option StaticLinkList := do
  let parentStu <- node maxsize heap parent
  let childStu <- node maxsize heap child
  let heap <- modifyNode maxsize heap parent fun _ => childStu
  let heap <- modifyNode maxsize heap child fun _ => parentStu
  let heap <-
    (if parentStu.preNode ≠ -1 ∧ parentStu.preNode ≠ child then
      setNextNode maxsize heap parentStu.preNode child
    else some heap)
  let heap <-
    (if parentStu.nextNode ≠ -1 ∧ parentStu.nextNode ≠ child then
      setPreNode maxsize heap parentStu.nextNode child
    else some heap)
  let heap <-
    (if childStu.preNode ≠ -1 ∧ childStu.preNode ≠ parent then
      setNextNode maxsize heap childStu.preNode parent
    else some heap)
  let heap <-
    (if childStu.nextNode ≠ -1 ∧ childStu.nextNode ≠ parent then
      setPreNode maxsize heap childStu.nextNode parent
    else some heap)
  let heap <-
    (if parentStu.preNode = child then do
      let heap <- setNextNode maxsize heap parent child
      setPreNode maxsize heap child parent
    else some heap)
  if parentStu.nextNode = child then do
    let heap <- setPreNode maxsize heap parent child
    setNextNode maxsize heap child parent
  else
    some heap

/-- The two lines with which `initialHeap` and `popHeap` set the head after an exchange. -/
def fixHead (maxsize : Int) (heap : StaticLinkList) (parent child : Int) :
    Option StaticLinkList := do
  let newParent <- node maxsize heap parent
  let heap := if newParent.preNode = -1 then { heap with headIndex := parent } else heap
  let newChild <- node maxsize heap child
  some (if newChild.preNode = -1 then { heap with headIndex := child } else heap)

def smallerChild (maxsize : Int) (heap : StaticLinkList) (n child : Int) : Option Int :=
  if child + 1 < n then do
    let left <- node maxsize heap child
    let right <- node maxsize heap (child + 1)
    some (if left.id > right.id then child + 1 else child)
  else
    some child

def initialHeapInner (maxsize n tempId : Int) :
    Nat -> StaticLinkList -> Int -> Int -> Option StaticLinkList
  | 0, _, _, _ => none
  | fuel + 1, heap, parent, child =>
      if child < n then do
        let child <- smallerChild maxsize heap n child
        let childStu <- node maxsize heap child
        if tempId > childStu.id then
          let heap <- swapHeapNode maxsize heap parent child
          let heap <- fixHead maxsize heap parent child
          initialHeapInner maxsize n tempId fuel heap child (2 * child + 1)
        else
          some heap
      else
        some heap

def initialHeapOuter (maxsize n : Int) : Nat -> StaticLinkList -> Option StaticLinkList
  | 0, heap => some heap
  | k + 1, heap => do
      let temp <- node maxsize heap k
      let heap <- initialHeapInner maxsize n temp.id (n.toNat + 1) heap k (2 * k + 1)
      initialHeapOuter maxsize n k heap

def initialHeap (maxsize : Int) (heap : StaticLinkList) : Option StaticLinkList :=
  initialHeapOuter maxsize heap.size (heap.size.tdiv 2).toNat heap

def pushHeapLoop (maxsize id : Int) :
    Nat -> StaticLinkList -> Int -> Option (StaticLinkList × Int)
  | 0, _, _ => none
  | fuel + 1, heap, child => do
      let parent := (child - 1).tdiv 2
      let parentStu <- node maxsize heap parent
      if id < parentStu.id ∧ child > 0 then
        let heap <- swapHeapNode maxsize heap parent child
        pushHeapLoop maxsize id fuel heap parent
      else
        some (heap, child)

def pushStudent (maxsize : Int) (heap : StaticLinkList) (id : Int) (name : Name) :
    Option StaticLinkList := do
  let child <- topStack maxsize heap.unusedIndexs
  let heap := { heap with unusedIndexs := popStack heap.unusedIndexs }
  let heap <- modifyNode maxsize heap child fun stu => { stu with id := id }
  let heap <- modifyNode maxsize heap child fun stu => { stu with name := name }
  let heap <- setPreNode maxsize heap heap.headIndex child
  let heap <- modifyNode maxsize heap child fun stu => { stu with flag := 1 }
  let heap <- setPreNode maxsize heap child (-1)
  let heap <- setNextNode maxsize heap child heap.headIndex
  let heap := { heap with size := heap.size + 1 }
  let (heap, child) <- pushHeapLoop maxsize id (maxsize.toNat + 1) heap child
  some { heap with headIndex := child }

def pushHeap (maxsize : Int) (heap : StaticLinkList) (stu : Student) :
    Option StaticLinkList :=
  pushStudent maxsize heap stu.id stu.name

def pushHeapByIdAndName (maxsize : Int) (heap : StaticLinkList) (id : Int) (name : Name) :
    Option StaticLinkList :=
  pushStudent maxsize heap id name

/-- The loop of `popHeap` from the index `high` on; an exchange ends it. -/
def popHeapLoop (maxsize tempId : Int) :
    Nat -> StaticLinkList -> Int -> Option StaticLinkList
  | 0, _, _ => none
  | fuel + 1, heap, high =>
      if high * 2 + 1 < heap.size then do
        let low := high * 2 + 1
        let low <-
          (if low ≠ heap.size - 1 then do
            let left <- node maxsize heap low
            let right <- node maxsize heap (low + 1)
            some (if left.id > right.id then low + 1 else low)
          else
            some low)
        let lowStu <- node maxsize heap low
        if lowStu.id < tempId then
          let heap <- swapHeapNode maxsize heap high low
          fixHead maxsize heap high low
        else
          popHeapLoop maxsize tempId fuel heap low
      else
        some heap

def unlinkRemoved (maxsize : Int) (heap : StaticLinkList) : Option StaticLinkList := do
  let removed <- node maxsize heap heap.size
  let heap <-
    (if removed.preNode ≠ -1 then setNextNode maxsize heap removed.preNode removed.nextNode
    else some heap)
  let heap <-
    (if removed.nextNode ≠ -1 then setPreNode maxsize heap removed.nextNode removed.preNode
    else some heap)
  some (if removed.preNode = -1 then { heap with headIndex := removed.nextNode } else heap)

def popHeap (maxsize : Int) (heap : StaticLinkList) : Option StaticLinkList :=
  if heap.size = 0 then
    some heap
  else do
    let heap := { heap with size := heap.size - 1 }
    let temp <- node maxsize heap heap.size
    let stk <- pushStack maxsize heap.unusedIndexs heap.size
    let heap := { heap with unusedIndexs := stk }
    let heap <- modifyNode maxsize heap heap.headIndex fun stu => { stu with flag := 0 }
    if heap.size = 0 then
      some heap
    else
      let heap <- swapHeapNode maxsize heap 0 heap.size
      let heap <- popHeapLoop maxsize temp.id (heap.size.toNat + 1) heap 0
      unlinkRemoved maxsize heap

/-!
# Searching and changing records
-/

def findHeapBy (maxsize : Int) (heap : StaticLinkList) (wanted : Student -> Bool) :
    Nat -> Int -> Option Int
  | 0, _ => none
  | fuel + 1, curIndex =>
      if curIndex ≥ heap.size then
        some (-1)
      else do
        let stu <- node maxsize heap curIndex
        if wanted stu then
          some curIndex
        else
          let leftIndex <-
            (if curIndex * 2 + 1 < heap.size then
              findHeapBy maxsize heap wanted fuel (curIndex * 2 + 1)
            else some (-1))
          if leftIndex ≠ -1 then
            some leftIndex
          else
            let rightIndex <-
              (if curIndex * 2 + 2 < heap.size then
                findHeapBy maxsize heap wanted fuel (curIndex * 2 + 2)
              else some (-1))
            if rightIndex ≠ -1 then some rightIndex else some (-1)

def findHeap (maxsize : Int) (heap : StaticLinkList) (stu : Student) (curIndex : Int) :
    Option Int :=
  findHeapBy maxsize heap (sameStudent stu) (maxsize.toNat + 1) curIndex

def changeAt (maxsize : Int) (heap : StaticLinkList) (index : Int)
    (change : Student -> Student) (rebuild : Bool) : Option Modified := do
  let heap <- modifyNode maxsize heap index change
  let heap <- (if rebuild then initialHeap maxsize heap else some heap)
  some (heap, [])

def modifyFound (maxsize : Int) (heap : StaticLinkList) (stu : Student)
    (change : Student -> Student) (rebuild : Bool) : Option Modified := do
  let index <- findHeap maxsize heap stu 0
  if index = -1 then some (heap, [notFound]) else changeAt maxsize heap index change rebuild

def modifyByIndex (maxsize : Int) (heap : StaticLinkList) (index : Int)
    (change : Student -> Student) (rebuild : Bool) : Option Modified :=
  if index ≥ heap.size then some (heap, [notFound])
  else changeAt maxsize heap index change rebuild

def modifyId (maxsize : Int) (heap : StaticLinkList) (stu : Student) (id : Int) :
    Option Modified :=
  modifyFound maxsize heap stu (setId id) true

def modifyName (maxsize : Int) (heap : StaticLinkList) (stu : Student) (name : Name) :
    Option Modified :=
  modifyFound maxsize heap stu (setName name) false

def modifyIdAndName (maxsize : Int) (heap : StaticLinkList) (stu : Student) (id : Int)
    (name : Name) : Option Modified :=
  modifyFound maxsize heap stu (fun record => setName name (setId id record)) true

def modifyIdByIndex (maxsize : Int) (heap : StaticLinkList) (index id : Int) :
    Option Modified :=
  modifyByIndex maxsize heap index (setId id) true

def modifyNameByIndex (maxsize : Int) (heap : StaticLinkList) (index : Int) (name : Name) :
    Option Modified :=
  modifyByIndex maxsize heap index (setName name) false

def modifyIdAndNameByIndex (maxsize : Int) (heap : StaticLinkList) (index id : Int)
    (name : Name) : Option Modified :=
  modifyByIndex maxsize heap index (fun record => setName name (setId id record)) true

/-!
# The operations
-/

/-- An operation on the list; only an insertion may change `MAXSIZE`. -/
def exec (fresh : Fresh) (heap : PointerList) : ListOp -> Option PointerList
  | .insertListAtHead stu => insertListAtHead fresh heap stu
  | .initialHeap => withLists (initialHeap heap.maxsize heap.lists)
  | .pushHeap stu => withLists (pushHeap heap.maxsize heap.lists stu)
  | .pushHeapByIdAndName id name =>
      withLists (pushHeapByIdAndName heap.maxsize heap.lists id name)
  | .popHeap => withLists (popHeap heap.maxsize heap.lists)
  | .modifyId stu id => withModified (modifyId heap.maxsize heap.lists stu id)
  | .modifyName stu name => withModified (modifyName heap.maxsize heap.lists stu name)
  | .modifyIdAndName stu id name =>
      withModified (modifyIdAndName heap.maxsize heap.lists stu id name)
  | .modifyIdByIndex index id =>
      withModified (modifyIdByIndex heap.maxsize heap.lists index id)
  | .modifyNameByIndex index name =>
      withModified (modifyNameByIndex heap.maxsize heap.lists index name)
  | .modifyIdAndNameByIndex index id name =>
      withModified (modifyIdAndNameByIndex heap.maxsize heap.lists index id name)
where
  withLists (result : Option StaticLinkList) : Option PointerList :=
    result.map fun lists => { heap with lists := lists }
  withModified (result : Option Modified) : Option PointerList :=
    withLists (result.map Prod.fst)

def insertAll (fresh : Fresh) (heap : PointerList) (stus : List Student) :
    Option PointerList :=
  Foundation.System.execAll (insertListAtHead fresh) heap stus

end Pointer
end StaticList
end OsLabs
