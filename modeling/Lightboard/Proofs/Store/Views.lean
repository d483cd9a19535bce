import Lightboard.Proofs.Store.Remembered

/-!
# A store behind its views

Any number of views stand before one store. Requests come to the store itself or through one of the
views, in any order. As long as no two texts put in have the same hash, nobody can tell which way a
request went: a view remembers entries, and entries never change.

`Shelf.Consistent` is what every request keeps. From it a whole run is compared with the run of the same
requests on a store that has no views. Errors are compared as causes, and so their words agree too,
whatever is left open in them (`Wording`).
-/

namespace Lightboard.Store

/-- What a store, or a view of it, is asked. -/
inductive Request where
  | put (item : Item)
  | has (h : UInt64)
  | retrieve (h : UInt64) (reader : Reader)
  | program (h : UInt64)

/-- The answer to a request, with programs given as `α`. -/
inductive Answer (α : Type) where
  | stored (result : Except Error UInt64)
  | present (there : Bool)
  | made (result : Except Error Text)
  | program (result : Except Error α)

def Answer.map {α β : Type} (f : α → β) : Answer α → Answer β
  | .stored result => .stored result
  | .present there => .present there
  | .made result => .made result
  | .program result => .program (result.map f)

/-- The words of an error. -/
def Error.words? {α : Type} (w : Wording) : Except Error α → Option Text
  | .ok _ => none
  | .error e => some (e.wording w)

/-- The words of the error that an answer gives, if it gives one. -/
def Answer.words? {α : Type} (w : Wording) : Answer α → Option Text
  | .stored result => Error.words? w result
  | .present _ => none
  | .made result => Error.words? w result
  | .program result => Error.words? w result

@[simp] theorem Answer.words?_map {α β : Type} (f : α → β) (w : Wording) (a : Answer α) :
    (a.map f).words? w = a.words? w := by
  cases a with
  | stored result => rfl
  | present there => rfl
  | made result => rfl
  | program result => cases result <;> rfl

/-- Answers that are the same but for the programs in them give their errors in the same words. -/
theorem Answer.words?_of_map_eq {α β γ : Type} {f : α → γ} {g : β → γ} {as : List (Answer α)}
    {bs : List (Answer β)} (same : as.map (map f) = bs.map (map g)) (k : Nat) (w : Wording) :
    as[k]?.bind (words? w) = bs[k]?.bind (words? w) := by
  have words := congrArg (fun cs => cs[k]?.bind (words? w)) same
  simpa only [List.getElem?_map, Option.bind_map, Function.comp_def, words?_map] using words

/-- The answer of a store, and the store after it. A program is given as the copy of that number. -/
def Memory.answer (m : Memory) (r : Request) (serial : Nat) : Answer Copy × Memory :=
  match r with
  | .put item => (.stored (m.put item).1, (m.put item).2)
  | .has h => (.present (m.has h), m)
  | .retrieve h reader => (.made (m.retrieve h reader), m)
  | .program h => (.program (m.program h serial), m)

/-- The answers of a store to requests that come one after the other. -/
def Memory.answers : Memory → Nat → List Request → List (Answer Copy)
  | _, _, [] => []
  | m, serial, r :: rs => (m.answer r serial).1 :: (m.answer r serial).2.answers (serial + 1) rs

/-- The answer through a view, and the view and the store after it. -/
def Recent.answer (c : Recent) (m : Memory) (r : Request) (serial : Nat) :
    Answer Copy × Recent × Memory :=
  match r with
  | .put item => (.stored (c.put m item).1, c, (c.put m item).2)
  | .has h => (.present (c.has m h), c, m)
  | .retrieve h reader => (.made (c.retrieve m h reader).1, (c.retrieve m h reader).2, m)
  | .program h => (.program (c.program m h serial).1, (c.program m h serial).2, m)

/-- A request, and the view it goes through unless it goes to the store itself. -/
structure Call (ι : Type) where
  via : Option ι
  request : Request

/-- A store with views of it. -/
structure Shelf (ι : Type) where
  memory : Memory := {}
  views : ι → Recent
  /-- How many calls there were. It is the serial number of a copy that the next call makes. -/
  calls : Nat := 0

namespace Shelf

variable {ι : Type}

/-- A store without entries and views of the given capacities. -/
def start (capacity : ι → Int) : Shelf ι := { views := fun i => Recent.create (capacity i) }

def answer (s : Shelf ι) (c : Call ι) : Answer Copy :=
  match c.via with
  | none => (s.memory.answer c.request s.calls).1
  | some i => ((s.views i).answer s.memory c.request s.calls).1

variable [DecidableEq ι]

def step (s : Shelf ι) (c : Call ι) : Shelf ι :=
  match c.via with
  | none => { s with memory := (s.memory.answer c.request s.calls).2, calls := s.calls + 1 }
  | some i =>
    let (_, view, memory) := (s.views i).answer s.memory c.request s.calls
    { memory := memory, views := Function.update s.views i view, calls := s.calls + 1 }

def after (s : Shelf ι) (cs : List (Call ι)) : Shelf ι := cs.foldl step s

def answers : Shelf ι → List (Call ι) → List (Answer Copy)
  | _, [] => []
  | s, c :: cs => s.answer c :: (s.step c).answers cs

end Shelf

theorem Recent.answer_memory (c : Recent) (m : Memory) (r : Request) (serial : Nat) :
    (c.answer m r serial).2.2 = (m.answer r serial).2 := by
  cases r with
  | put item => rfl
  | has h => rfl
  | retrieve h reader => rfl
  | program h => rfl

theorem Recent.answer_sound {c : Recent} (sound : c.Sound) (m : Memory) (r : Request)
    (serial : Nat) : (c.answer m r serial).2.1.Sound := by
  cases r with
  | put item => exact sound
  | has h => exact sound
  | retrieve h reader =>
    simp only [Recent.answer, retrieve_view]
    exact lookup_sound sound m h
  | program h => exact program_sound sound m h serial

/-- Looking at a store changes nothing that a faithful view remembers. -/
theorem Recent.answer_faithful {c : Recent} {m : Memory} (sound : c.Sound) (faithful : c.Faithful m)
    (r : Request) (serial : Nat) : (c.answer m r serial).2.1.Faithful m := by
  cases r with
  | put item => exact faithful
  | has h => exact faithful
  | retrieve h reader =>
    simp only [Recent.answer, retrieve_view]
    exact lookup_faithful sound faithful h
  | program h => exact program_faithful sound faithful h serial

/-- A faithful view answers as the store does. -/
theorem Recent.Faithful.answer_eq {c : Recent} {m : Memory} (faithful : c.Faithful m) (r : Request)
    (serial serial' : Nat) :
    (c.answer m r serial).1.map Copy.program = (m.answer r serial').1.map Copy.program := by
  cases r with
  | put item => rfl
  | has h => rfl
  | retrieve h reader => exact congrArg Answer.made (faithful.retrieve_eq h reader)
  | program h => exact congrArg Answer.program (faithful.program_eq h serial serial')

/-- The number of a copy is nothing that its program tells. -/
theorem Memory.answer_serial (m : Memory) (r : Request) (serial serial' : Nat) :
    (m.answer r serial).1.map Copy.program = (m.answer r serial').1.map Copy.program ∧
    (m.answer r serial).2 = (m.answer r serial').2 := by
  cases r with
  | put item => exact ⟨rfl, rfl⟩
  | has h => exact ⟨rfl, rfl⟩
  | retrieve h reader => exact ⟨rfl, rfl⟩
  | program h =>
    refine ⟨congrArg Answer.program ?_, rfl⟩
    unfold Memory.program
    split
    · next t _ =>
      cases decodeEntry h t with
      | error e => rfl
      | ok p => rfl
    · rfl

/-- The request puts these bytes into the store. -/
def Request.Writes (r : Request) (t : Text) : Prop := ∃ item, r = .put item ∧ item.bytes = .ok t

theorem Memory.answer_grows (m : Memory) (r : Request) (serial : Nat) :
    Grows {t | r.Writes t} m (m.answer r serial).2 := by
  cases r with
  | put item => exact (m.put_grows item).mono fun t written => ⟨item, rfl, written⟩
  | has h => exact .inl rfl
  | retrieve h reader => exact .inl rfl
  | program h => exact .inl rfl

namespace Shelf

variable {ι : Type} {s : Shelf ι} {texts : Set Text}

/-- The store holds texts of the given set, each under its hash, and the views what the store holds. -/
structure Consistent (texts : Set Text) (s : Shelf ι) : Prop where
  keyed : s.memory.Keyed
  holds : s.memory.Holds texts
  sound : ∀ i, (s.views i).Sound
  faithful : ∀ i, (s.views i).Faithful s.memory

theorem start_consistent (texts : Set Text) (capacity : ι → Int) :
    (start capacity).Consistent texts where
  keyed := Memory.keyed_empty
  holds := by
    intro h t there
    cases there
  sound i := Recent.create_sound _
  faithful i := Recent.create_faithful _ _

theorem Consistent.answer_eq (consistent : s.Consistent texts) (c : Call ι) (serial : Nat) :
    (s.answer c).map Copy.program = (s.memory.answer c.request serial).1.map Copy.program := by
  unfold answer
  split
  · exact (s.memory.answer_serial c.request s.calls serial).1
  · next i _ => exact (consistent.faithful i).answer_eq c.request s.calls serial

variable [DecidableEq ι]

@[simp] theorem after_nil (s : Shelf ι) : s.after [] = s := rfl

@[simp] theorem after_cons (s : Shelf ι) (c : Call ι) (cs : List (Call ι)) :
    s.after (c :: cs) = (s.step c).after cs := rfl

theorem after_append (s : Shelf ι) (cs cs' : List (Call ι)) :
    s.after (cs ++ cs') = (s.after cs).after cs' :=
  List.foldl_append

@[simp] theorem step_calls (s : Shelf ι) (c : Call ι) : (s.step c).calls = s.calls + 1 := by
  unfold step
  split <;> rfl

/-- Whichever way it goes, a request changes the store in the same way. -/
theorem step_memory (s : Shelf ι) (c : Call ι) :
    (s.step c).memory = (s.memory.answer c.request s.calls).2 := by
  unfold step
  split
  · rfl
  · exact Recent.answer_memory _ _ _ _

/-- A view changes only by the requests that go through it. -/
theorem step_views (s : Shelf ι) (c : Call ι) (i : ι) :
    (s.step c).views i =
      if c.via = some i then ((s.views i).answer s.memory c.request s.calls).2.1
      else s.views i := by
  unfold step
  split
  · next direct => simp [direct]
  · next j through =>
    by_cases same : j = i
    · subst same
      simp [through]
    · simp [through, same, Ne.symm same]

theorem step_sound {i : ι} (sound : (s.views i).Sound) (c : Call ι) :
    ((s.step c).views i).Sound := by
  rw [step_views]
  split
  · exact Recent.answer_sound sound _ _ _
  · exact sound

theorem step_grows (s : Shelf ι) (c : Call ι) :
    Memory.Grows {t | c.request.Writes t} s.memory (s.step c).memory := by
  rw [step_memory]
  exact s.memory.answer_grows c.request s.calls

theorem step_consistent (consistent : s.Consistent texts) (apart : Set.InjOn Hash64.hash texts)
    {c : Call ι} (writes : ∀ t, c.request.Writes t → t ∈ texts) :
    (s.step c).Consistent texts where
  keyed := (s.step_grows c).keyed consistent.keyed
  holds := ((s.step_grows c).mono writes).holds consistent.holds
  sound i := step_sound (consistent.sound i) c
  faithful := by
    intro i
    refine Recent.Faithful.mono ?_
      (((s.step_grows c).mono writes).within consistent.keyed consistent.holds apart)
    rw [step_views]
    split
    · exact Recent.answer_faithful (consistent.sound i) (consistent.faithful i) _ _
    · exact consistent.faithful i

theorem after_keyed (keyed : s.memory.Keyed) (cs : List (Call ι)) : (s.after cs).memory.Keyed := by
  induction cs generalizing s with
  | nil => exact keyed
  | cons c cs ih => exact ih ((s.step_grows c).keyed keyed)

theorem Consistent.answers_eq (consistent : s.Consistent texts) (apart : Set.InjOn Hash64.hash texts)
    {cs : List (Call ι)} (writes : ∀ c ∈ cs, ∀ t, c.request.Writes t → t ∈ texts) (serial : Nat) :
    (s.answers cs).map (Answer.map Copy.program) =
      (s.memory.answers serial (cs.map Call.request)).map (Answer.map Copy.program) := by
  induction cs generalizing s serial with
  | nil => rfl
  | cons c cs ih =>
    obtain ⟨now, later⟩ := List.forall_mem_cons.1 writes
    have memory : (s.step c).memory = (s.memory.answer c.request serial).2 := by
      rw [step_memory]
      exact (s.memory.answer_serial c.request s.calls serial).2
    simp only [answers, List.map_cons, Memory.answers]
    rw [consistent.answer_eq c serial, ih (step_consistent consistent apart now) later (serial + 1),
      memory]

/-- A request to put in what cannot be written is refused, and nothing changes. -/
theorem step_put_of_error {item : Item} {e : Error} (failed : item.bytes = .error e) (s : Shelf ι)
    (via : Option ι) :
    s.answer ⟨via, .put item⟩ = .stored (.error e) ∧
    s.step ⟨via, .put item⟩ = { s with calls := s.calls + 1 } := by
  cases via with
  | none => simp [answer, step, Memory.answer, Memory.put_of_error failed]
  | some i =>
    simp [answer, step, Recent.answer, Recent.put, Memory.put_of_error failed]

/-- If no two of the texts put in have the same hash, requests that go through views get the answers
that the store alone gives to the same requests. The words of their errors agree as well, whatever the
byte reader says of bytes that it cannot read, and whichever wrong digit of a time pattern is named at
each call. In any case each entry of the store is under its hash, and what cannot be written changes
nothing. -/
theorem answers_eq_store (capacity : ι → Int) (cs : List (Call ι))
    (apart : Set.InjOn Hash64.hash {t | ∃ c ∈ cs, c.request.Writes t}) :
    ((start capacity).answers cs).map (Answer.map Copy.program) =
      (({} : Memory).answers 0 (cs.map Call.request)).map (Answer.map Copy.program) ∧
    (∀ (k : Nat) (w : Wording), ((start capacity).answers cs)[k]?.bind (Answer.words? w) =
      (({} : Memory).answers 0 (cs.map Call.request))[k]?.bind (Answer.words? w)) ∧
    (∀ h t, ((start capacity).after cs).memory.get? h = some t → h = Hash64.hash t) ∧
    ∀ via item e, item.bytes = .error e →
      ((start capacity).after cs).answer ⟨via, .put item⟩ = .stored (.error e) ∧
      (((start capacity).after cs).step ⟨via, .put item⟩).memory =
        ((start capacity).after cs).memory ∧
      (((start capacity).after cs).step ⟨via, .put item⟩).views =
        ((start capacity).after cs).views := by
  have writes : ∀ c ∈ cs, ∀ t, c.request.Writes t → t ∈ {t | ∃ c ∈ cs, c.request.Writes t} :=
    fun c member t written => ⟨c, member, written⟩
  have same := (start_consistent _ capacity).answers_eq apart writes 0
  refine ⟨same, Answer.words?_of_map_eq same, after_keyed Memory.keyed_empty cs, ?_⟩
  intro via item e failed
  obtain ⟨refused, unchanged⟩ := step_put_of_error failed ((start capacity).after cs) via
  exact ⟨refused, by rw [unchanged], by rw [unchanged]⟩

/-- A program without instructions. -/
def blank : Program := { name := "blank", code := [], routines := {} }

/-- A stored program with a time pattern of which no digit is right. -/
def misprint : Text := Wire.Program.bytes { code := [{ first := { kind := 7, str := "xy:zw" } }] }

/-- A text that is no program, a program and a misprint, asked for in turns where there is room for
one. -/
def turns : List (Call Unit) :=
  [⟨some (), .put (.raw [1])⟩, ⟨none, .put (.program blank)⟩, ⟨some (), .put .noProgram⟩,
    ⟨some (), .put (.raw misprint)⟩, ⟨some (), .program (Hash64.hash [1])⟩,
    ⟨some (), .program (Hash64.hash blank.encode)⟩, ⟨some (), .retrieve (Hash64.hash [1]) .ok⟩,
    ⟨some (), .program (Hash64.hash blank.encode)⟩, ⟨none, .has (Hash64.hash [1])⟩,
    ⟨some (), .program (Hash64.hash misprint)⟩, ⟨some (), .program 0⟩]

/-- The rightmost of several wrong digits is named. -/
def rightmost : Wording where
  unread _ t := Text.concat [Text.ofNat t.length, " bytes"]
  named wrong := wrong.getLastD 0
  named_mem wrong some := by
    rw [List.getLastD_eq_getLast?, List.getLast?_eq_getLast_of_ne_nil some]
    exact List.getLast_mem some

/-- The three texts have different hashes, so the view with room for one gives the answers of the store.
The words for the misprint depend on the wording and not on the way, and what is no program changes
nothing. -/
theorem turns_answered :
    Set.InjOn Hash64.hash {t | ∃ c ∈ turns, c.request.Writes t} ∧
    ((start fun _ => 1).answers turns).map (Answer.map Copy.program) =
      (({} : Memory).answers 0 (turns.map Call.request)).map (Answer.map Copy.program) ∧
    (∀ w ∈ [Wording.plain, rightmost],
      ((start fun _ => 1).answers turns)[9]?.bind (Answer.words? w) =
        (({} : Memory).answers 0 (turns.map Call.request))[9]?.bind (Answer.words? w)) ∧
    ((start fun _ => 1).answers turns)[9]?.bind (Answer.words? .plain) ≠
      ((start fun _ => 1).answers turns)[9]?.bind (Answer.words? rightmost) ∧
    (((start fun _ => 1).after turns).step ⟨some (), .put .noProgram⟩).memory =
      ((start fun _ => 1).after turns).memory := by
  have apart : Set.InjOn Hash64.hash {t | ∃ c ∈ turns, c.request.Writes t} := by
    have differ : (List.map Hash64.hash [[1], blank.encode, misprint]).Nodup := by decide +kernel
    have three : Set.InjOn Hash64.hash {t | t ∈ [[1], blank.encode, misprint]} :=
      fun _ listed _ listed' equal => List.inj_on_of_nodup_map differ listed listed' equal
    apply three.mono
    rintro t ⟨c, member, item, put, written⟩
    simp only [turns, List.mem_cons, List.not_mem_nil, or_false] at member
    obtain rfl | rfl | rfl | rfl | rfl | rfl | rfl | rfl | rfl | rfl | rfl := member
    · cases put
      cases written
      exact List.mem_cons_self
    · cases put
      cases written
      exact List.mem_cons_of_mem _ List.mem_cons_self
    · cases put
      cases written
    · cases put
      cases written
      exact List.mem_cons_of_mem _ (List.mem_cons_of_mem _ List.mem_cons_self)
    all_goals cases put
  obtain ⟨answered, worded, -, refused⟩ := answers_eq_store (fun _ => 1) turns apart
  exact ⟨apart, answered, fun w _ => worded 9 w, by decide +kernel,
    (refused (some ()) .noProgram .noProgram rfl).2.1⟩

end Shelf

end Lightboard.Store
