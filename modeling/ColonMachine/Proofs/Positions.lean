import ColonMachine.Proofs.Layout

/-!
# Access by position

What a machine works on is kept in lists, and they are taken apart by cases.  Where the same data
are kept in arrays, every one of them is accessed by position, and a position out of range brings
the host down.  So a check has to come before every access.

Here the accesses are written that way, with `none` for a crash: the cells of the data stack,
counted from the bottom, after a check of its depth; the frames of the return stack; the bytes of
code; the functions of the dictionary; the words of the line, with the mark behind them; and the
bytes that a listing shows.  For each of them it is shown that it never crashes and is what the
machine does.  Nothing is assumed about the data.
-/

namespace ColonMachine

variable {α : Type}

/-! ## Arrays -/

/-- The entry of an array at a position.  A position out of range is a crash. -/
def entry (xs : List α) : ℤ → Option α
  | Int.ofNat i => xs[i]?
  | Int.negSucc _ => none

/-- The entries of an array before a position.  A position out of range is a crash. -/
def slice (xs : List α) : ℤ → Option (List α)
  | Int.ofNat i => if i ≤ xs.length then some (xs.take i) else none
  | Int.negSucc _ => none

/-- Takes the top off a stack, which is the last entry of the array that it is kept in. -/
def popLast (s : List α) : Option (α × List α) := do
  let i : ℤ := s.length - 1
  return (← entry s.reverse i, (← slice s.reverse i).reverse)

lemma length_cons_sub_one (a : α) (s : List α) :
    ((a :: s).length : ℤ) - 1 = (s.length : ℕ) := by simp

/-- The top of a stack is at the last position. -/
lemma entry_top (a : α) (s : List α) :
    entry (a :: s).reverse (((a :: s).length : ℤ) - 1) = some a := by
  rw [length_cons_sub_one]
  simp [entry]

lemma popLast_cons (a : α) (s : List α) : popLast (a :: s) = some (a, s) := by
  have hslice : slice (a :: s).reverse (((a :: s).length : ℤ) - 1) = some s.reverse := by
    rw [length_cons_sub_one]
    simp [slice]
  simp only [popLast, entry_top, hslice]
  simp

/-! ## The data stack -/

namespace Stack

/-- Checks that there are two cells, takes them off, and pushes a result. -/
def binaryAt (f : Int32 → Int32 → Int32) (s : Stack) : Option (Except Fault Stack) :=
  if s.length < 2 then some (.error .stackUnderflow)
  else do
    let (b, s) ← popLast s
    let (a, s) ← popLast s
    return .ok (f a b :: s)

/-- Looks at the last cell before it divides. -/
def divideAt (s : Stack) : Option (Except Fault Stack) :=
  if s.length < 2 then some (.error .stackUnderflow)
  else do
    if (← entry s.reverse (s.length - 1)) = 0 then return .error .divisionByZero
    else binaryAt (· / ·) s

def dupAt (s : Stack) : Option (Except Fault Stack) :=
  if s.length < 1 then some (.error .stackUnderflow)
  else do return .ok ((← entry s.reverse (s.length - 1)) :: s)

def dropAt (s : Stack) : Option (Except Fault Stack) :=
  if s.length < 1 then some (.error .stackUnderflow) else do return .ok (← popLast s).2

/-- Puts the two last cells in each other's place. -/
def swapAt (s : Stack) : Option (Except Fault Stack) :=
  if s.length < 2 then some (.error .stackUnderflow)
  else do
    let i : ℤ := s.length - 1
    let b ← entry s.reverse i
    let a ← entry s.reverse (i - 1)
    return .ok (a :: b :: (← slice s.reverse (i - 1)).reverse)

/-- The number that is printed, if there is one. -/
def topAt (s : Stack) : Option (Option Int32) :=
  if 0 ≤ (s.length : ℤ) - 1 then do return some (← entry s.reverse (s.length - 1)) else some none

variable (s : Stack)

lemma binaryAt_eq (f : Int32 → Int32 → Int32) : binaryAt f s = some (binary f s) := by
  rcases s with _ | ⟨b, _ | ⟨a, s⟩⟩
  · rfl
  · rfl
  · simp [binaryAt, popLast_cons, binary]

lemma divideAt_eq : divideAt s = some (divide s) := by
  rcases s with _ | ⟨b, _ | ⟨a, s⟩⟩
  · rfl
  · rfl
  · rw [divideAt, if_neg (by simp), entry_top, binaryAt_eq]
    by_cases hb : b = 0 <;> simp [divide, binary, hb]

lemma dupAt_eq : dupAt s = some (dup s) := by
  cases s with
  | nil => rfl
  | cons a s =>
      rw [dupAt, if_neg (by simp), entry_top]
      rfl

lemma dropAt_eq : dropAt s = some (drop s) := by
  cases s with
  | nil => rfl
  | cons a s =>
      rw [dropAt, if_neg (by simp), popLast_cons]
      rfl

lemma swapAt_eq : swapAt s = some (swap s) := by
  rcases s with _ | ⟨b, _ | ⟨a, s⟩⟩
  · rfl
  · rfl
  · have hi : ((b :: a :: s).length : ℤ) - 1 - 1 = (s.length : ℕ) := by simp
    rw [swapAt, if_neg (by simp)]
    dsimp only
    rw [entry_top, hi]
    simp [entry, slice, swap]

lemma topAt_eq : topAt s = some s.head? := by
  cases s with
  | nil => rfl
  | cons a s =>
      rw [topAt, if_pos (by simp), entry_top]
      rfl

end Stack

/-! ## The return stack, the dictionary and the code -/

/-- Checks that there is a frame, and takes it off. -/
def popFrameAt (frames : List Frame) : Option (Except Fault (Frame × List Frame)) :=
  if (frames.length : ℤ) - 1 < 0 then some (.error .returnUnderflow)
  else do return .ok (← popLast frames)

lemma popFrameAt_eq (frames : List Frame) : popFrameAt frames = some (match frames with
    | [] => .error .returnUnderflow
    | frame :: frames => .ok (frame, frames)) := by
  cases frames with
  | nil => rfl
  | cons frame frames =>
      rw [popFrameAt, if_neg (by simp), popLast_cons]
      rfl

/-- What an array has at a position, where the position is checked first. -/
def checked (xs : List α) (i : ℤ) : Option (Option α) :=
  if 0 ≤ i ∧ i < xs.length then do return some (← entry xs i) else some none

lemma checked_eq (xs : List α) (i : ℤ) : checked xs i = some (entry xs i) := by
  cases i with
  | negSucc i => rfl
  | ofNat i =>
      by_cases hi : i < xs.length
      · have hrange : 0 ≤ Int.ofNat i ∧ Int.ofNat i < xs.length :=
          ⟨Int.natCast_nonneg i, Int.ofNat_lt.mpr hi⟩
        rw [checked, if_pos hrange]
        simp [entry, hi]
      · rw [checked, if_neg fun h => hi (Int.ofNat_lt.mp h.2)]
        simp [entry, hi]

lemma get?_at (d : Dictionary) (id : FuncId) : checked d.functions id = some (d.get? id) := by
  rw [checked_eq]
  cases id <;> rfl

lemma codeAt?_at (f : Function) (pc : ℤ) : checked f.code pc = some (Machine.codeAt? f pc) := by
  rw [checked_eq]
  cases pc <;> rfl

/-- All functions of the dictionary, one position after the other. -/
def Dictionary.functionsAt (d : Dictionary) : Option (List Function) :=
  (List.range' 0 d.size).mapM fun i : ℕ => entry d.functions i

/-- The induction is over what is still to be taken; `past` has been taken. -/
lemma mapM_entry (past xs : List α) :
    (List.range' past.length xs.length).mapM (fun i : ℕ => entry (past ++ xs) i) = some xs := by
  induction xs generalizing past with
  | nil => rfl
  | cons x xs ih =>
      have hrest := ih (past ++ [x])
      rw [List.length_append, List.length_singleton, List.append_assoc] at hrest
      have hfirst : entry (past ++ x :: xs) (past.length : ℕ) = some x := by simp [entry]
      rw [List.length_cons, List.range'_succ, List.mapM_cons, hfirst]
      simp only [List.singleton_append] at hrest
      simp [hrest]

lemma Dictionary.functionsAt_eq (d : Dictionary) : d.functionsAt = some d.functions :=
  mapM_entry [] d.functions

/-- Goes through the functions for the first of that name. -/
def Dictionary.findAt (d : Dictionary) (name : Text) : Option (Option FuncId) := do
  return find? ⟨← d.functionsAt⟩ name

def Dictionary.nameListAt (d : Dictionary) (except : FuncId) : Option Text := do
  return nameList ⟨← d.functionsAt⟩ except

def Dictionary.nameOfAt (d : Dictionary) (id : FuncId) : Option Text := do
  match ← checked d.functions id with
  | some f => return f.name
  | none => return utf8 "#" ++ Text.ofInt id

/-- The open definition.  It may have been given any id. -/
def Engine.openedAt (e : Engine) : Option (Option (FuncId × Function)) :=
  match e.defining with
  | none => some none
  | some id => do return (← checked e.dict.functions id).map (id, ·)

/-- The byte of the current function at a position, if there are such a function and such a
position. -/
def Engine.byteAt (e : Engine) (position : ℤ) : Option (Option Code) := do
  match ← checked e.dict.functions e.fn with
  | none => return none
  | some f => checked f.code position

/-- The function a word stands for, which is looked for and then fetched. -/
def Dictionary.lookupAt (d : Dictionary) (word : Text) : Option (Option (FuncId × Function)) := do
  match ← d.findAt word with
  | none => return none
  | some id => return (← checked d.functions id).map (id, ·)

section Lookup

variable (d : Dictionary) (e : Engine)

lemma Dictionary.findAt_eq (name : Text) : d.findAt name = some (d.find? name) := by
  rw [findAt, functionsAt_eq]
  rfl

lemma Dictionary.nameListAt_eq (except : FuncId) :
    d.nameListAt except = some (d.nameList except) := by
  rw [nameListAt, functionsAt_eq]
  rfl

lemma Dictionary.nameOfAt_eq (id : FuncId) : d.nameOfAt id = some (d.nameOf id) := by
  rw [nameOfAt, get?_at, nameOf]
  cases d.get? id <;> rfl

lemma Engine.openedAt_eq : e.openedAt = some e.opened? := by
  rw [openedAt, opened?]
  cases e.defining with
  | none => rfl
  | some id =>
      simp only [Option.bind_eq_bind, Option.bind_some, get?_at]
      cases e.dict.get? id <;> rfl

lemma Engine.byteAt_eq (position : ℤ) :
    e.byteAt position = some ((e.dict.get? e.fn).bind (Machine.codeAt? · position)) := by
  rw [byteAt, get?_at]
  cases e.dict.get? e.fn with
  | none => rfl
  | some f => exact codeAt?_at f position

lemma Dictionary.lookupAt_eq (word : Text) : d.lookupAt word = some (Machine.lookup? d word) := by
  rw [lookupAt, findAt_eq, Machine.lookup?]
  cases d.find? word with
  | none => rfl
  | some id =>
      simp only [Option.bind_eq_bind, Option.bind_some, get?_at]
      cases d.get? id <;> rfl

end Lookup

/-! ## The words of a line -/

namespace Source

variable {ε : Type}

/-- The words that are left of the line, and the mark behind them. -/
def marked (src : Source) : List (Option Text) :=
  match src.buffer with
  | none => []
  | some words => words.map some ++ [none]

/-- Takes the first entry off the line. -/
def popWordAt (src : Source) : Option (Option Text × Source) := do
  let word ← entry src.marked 0
  let rest := src.marked.drop 1
  return (word, { src with buffer := if rest.isEmpty then none else some (rest.filterMap id) })

/-- The next word.  A line is read first, if there is nothing left of the last one. -/
def nextWordAt (hooks : Hooks ε) (src : Source) (env : ε) :
    Option (Except Failure (Option Text) × Source × ε) :=
  if src.marked.isEmpty then
    match src.readLine hooks env with
    | (some failure, src, env) => some (.error failure, src, env)
    | (none, src, env) => do
      let (word, src) ← src.popWordAt
      return (.ok word, src, env)
  else do
    let (word, src) ← src.popWordAt
    return (.ok word, src, env)

lemma popWordAt_eq {src : Source} (h : src.buffer.isSome) : src.popWordAt = some src.popWord := by
  obtain ⟨words, hwords⟩ := Option.isSome_iff_exists.mp h
  cases words with
  | nil => simp [popWordAt, marked, popWord, hwords, entry]
  | cons word words => simp [popWordAt, marked, popWord, hwords, entry]

lemma nextWordAt_eq (hooks : Hooks ε) (src : Source) (env : ε) :
    src.nextWordAt hooks env = some (src.nextWord hooks env) := by
  have hempty : src.marked.isEmpty = src.isEmpty := by
    rcases hbuffer : src.buffer with _ | words <;> simp [marked, isEmpty, hbuffer]
  rw [nextWordAt, nextWord, hempty]
  split_ifs with h
  · rcases hread : src.readLine hooks env with ⟨_ | failure, src', env'⟩
    · simp only [popWordAt_eq (buffer_readLine hread)]
      rfl
    · rfl
  · have hsome : src.buffer.isSome := by simpa [isEmpty, Option.isSome_iff_ne_none] using h
    rw [popWordAt_eq hsome]
    rfl

end Source

/-! ## Listings -/

namespace Code

/-- The item at a position of code, and the position after it.  An operand is looked for where the
opcode has one. -/
def itemAt (code : List Code) (pc : ℕ) : Option (Item × ℕ) := do
  let byte ← entry code pc
  match Opcode.ofCode? byte with
  | none => return (.unknown byte, pc + 1)
  | some op =>
    if op.hasOperand then
      if code.length ≤ pc + 1 then return (.lacking op, pc + 1)
      else return (.operand op (← entry code (pc + 1 : ℕ)), pc + 2)
    else if op == .ret && pc + 1 == code.length then return (.finish, pc + 1)
    else return (.plain op, pc + 1)

/-- The items from a position on; `fuel` bounds how many there are. -/
def itemsAt (code : List Code) : (fuel pc : ℕ) → Option (List (Item × ℕ))
  | 0, _ => some []
  | fuel + 1, pc =>
    if pc < code.length then do
      let item ← itemAt code pc
      return item :: (← itemsAt code fuel item.2)
    else some []

section Drop

variable {code rest : List Code} {pc : ℕ} {byte : Code}

lemma itemAt_eq (h : code.drop pc = byte :: rest) :
    itemAt code pc = some (Item.decode byte rest, pc + (Item.decode byte rest).width) := by
  have hlength : code.length = pc + 1 + rest.length := by
    have := congrArg List.length h
    simp only [List.length_drop, List.length_cons] at this
    omega
  have hbyte : entry code pc = some byte := by
    have := congrArg (·[0]?) h
    simpa [entry] using this
  have harg : entry code (pc + 1 : ℕ) = rest[0]? := by
    have := congrArg (·[1]?) h
    simpa [entry] using this
  rw [itemAt, hbyte]
  simp only [Option.bind_eq_bind, Option.bind_some, harg, hlength, Item.decode]
  cases Opcode.ofCode? byte with
  | none => rfl
  | some op => cases rest <;> cases op <;> simp [Opcode.hasOperand, Item.width]

lemma itemsAfter_skip (skip pc : ℕ) (code : List Code) :
    itemsAfter skip pc code = itemsAfter 0 (pc + skip) (code.drop skip) := by
  induction skip generalizing pc code with
  | zero => rfl
  | succ skip ih =>
      cases code with
      | nil => simp [itemsAfter]
      | cons byte rest =>
          rw [itemsAfter, ih, List.drop_succ_cons, Nat.add_assoc, Nat.add_comm 1 skip]

/-- The induction is over the number of items that there may be. -/
lemma itemsAt_drop (fuel : ℕ) (hfuel : code.length ≤ pc + fuel) :
    itemsAt code fuel pc = some (itemsAfter 0 pc (code.drop pc)) := by
  induction fuel generalizing pc with
  | zero =>
      rw [List.drop_eq_nil_of_le (by simpa using hfuel)]
      rfl
  | succ fuel ih =>
      rw [itemsAt]
      split_ifs with hpc
      · have hdrop := List.drop_eq_getElem_cons hpc
        have hwidth : 1 ≤ (Item.decode code[pc] (code.drop (pc + 1))).width := by
          cases Item.decode code[pc] (code.drop (pc + 1)) <;> simp [Item.width]
        rw [itemAt_eq hdrop, hdrop, itemsAfter]
        generalize Item.decode code[pc] (code.drop (pc + 1)) = item at hwidth ⊢
        have hnext : pc + 1 + (item.width - 1) = pc + item.width := by omega
        rw [itemsAfter_skip, List.drop_drop, hnext]
        simp only [Option.bind_eq_bind, Option.bind_some]
        rw [ih (by omega)]
        rfl
      · rw [List.drop_eq_nil_of_le (Nat.not_lt.mp hpc)]
        rfl

end Drop

lemma itemsAt_eq (code : List Code) : itemsAt code code.length 0 = some (items code) :=
  itemsAt_drop code.length (Nat.le_add_left _ _)

end Code

/-- The text of an item.  The name of a function that is called is looked up. -/
def Item.textAt (d : Dictionary) : Item → Option Text
  | operand .call arg => do return (← d.nameOfAt (Code.callee arg)).asName
  | item => some (item.text d)

lemma Item.textAt_eq (d : Dictionary) (item : Item) : item.textAt d = some (item.text d) := by
  cases item with
  | operand op arg =>
      cases op with
      | call =>
          rw [textAt, Dictionary.nameOfAt_eq]
          rfl
      | _ => rfl
  | _ => rfl

namespace Dictionary

/-- The items of code, each with a space in front. -/
def bodyAt (d : Dictionary) (code : List Code) : Option Text := do
  let items ← Code.itemsAt code code.length 0
  return (← items.mapM fun item => do return utf8 " " ++ (← item.1.textAt d)).flatten

def definitionAt (d : Dictionary) (id : FuncId) : Option Text := do
  match ← checked d.functions id with
  | none => return utf8 "UNDEFINED_FUNC_" ++ Text.ofInt id
  | some f =>
    let body ←
      if f.native.isSome then some (utf8 " <native> ;")
      else if f.code.isEmpty then some (utf8 " <undefined>")
      else d.bodyAt f.code
    return utf8 ": " ++ f.name.asName ++ body ++ (if f.immediate then utf8 " immediate" else [])

lemma bodyAt_eq (d : Dictionary) (code : List Code) :
    d.bodyAt code = some ((Code.items code).flatMap fun item => utf8 " " ++ item.1.text d) := by
  simp only [bodyAt, Code.itemsAt_eq, Item.textAt_eq, Option.bind_eq_bind, Option.bind_some,
    List.mapM_pure, List.flatMap]
  rfl

lemma definitionAt_eq (d : Dictionary) (id : FuncId) :
    d.definitionAt id = some (d.definition id) := by
  rw [definitionAt, get?_at, definition]
  cases d.get? id with
  | none => rfl
  | some f =>
      simp only [Option.bind_eq_bind, Option.bind_some, bodyAt_eq]
      split_ifs <;> rfl

end Dictionary

end ColonMachine
