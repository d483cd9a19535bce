import Lightboard.Proofs.Toml.Encoding

/-!
# The texts of a document are UTF-8

The values of a document are built from the texts its readers take, so every text in it, in arrays
of any depth, is UTF-8 again.
-/

namespace Lightboard.Toml

open Text (IsUtf8)

/-- The readers of values, which call each other with less to spend. -/
structure TermsKeep (fuel : Nat) : Prop where
  term : Keeps Term.IsUtf8 (readTerm fuel)
  items : Keeps Term.IsUtf8 (readItems fuel)
  pairs : Keeps Term.IsUtf8 (readPairs fuel)

theorem readTerm_keeps {fuel : Nat} (ih : TermsKeep fuel) :
    Keeps Term.IsUtf8 (readTerm (fuel + 1)) := by
  intro t v rest ht h
  have hs := isUtf8_skipSpace ht
  rw [readTerm] at h
  simp only at h
  split at h
  · cases h
  · next b u same =>
    rw [same] at hs h
    split at h
    · next bracket =>
      subst b
      exact ih.items (hs.tail (by decide)) h
    · split at h
      · next brace =>
        subst b
        have hu := hs.tail (by decide)
        split at h
        · next c t' begins =>
          split at h
          · next closes =>
            cases h
            subst c
            exact ⟨.table (by simp), (begins ▸ isUtf8_skipSpace hu).tail (by decide)⟩
          · exact ih.pairs hu h
        · cases h
      · split at h
        · obtain ⟨⟨s, t'⟩, string, same⟩ := Option.map_eq_some_iff.1 h
          cases same
          obtain ⟨hs', hrest⟩ := readString_keeps hs string
          exact ⟨.text hs', hrest⟩
        · split at h
          · next begins =>
            cases h
            exact ⟨.boolean true, @isUtf8_drop "true" _ (by decide) hs begins⟩
          · split at h
            · next begins =>
              cases h
              exact ⟨.boolean false, @isUtf8_drop "false" _ (by decide) hs begins⟩
            · split at h
              · next r special =>
                obtain rfl := Option.some.inj h
                exact readSpecial_keeps false hs special
              · split at h
                · exact readNumber_keeps hs h
                · cases h

theorem readItems_keeps {fuel : Nat} (ih : TermsKeep fuel) :
    Keeps Term.IsUtf8 (readItems (fuel + 1)) := by
  intro t v rest ht h
  have hs := isUtf8_skipBlank t.length ht
  rw [readItems] at h
  split at h
  · cases h
  · next b u same =>
    rw [same] at hs h
    split at h
    · next closes =>
      cases h
      subst b
      exact ⟨.array (by simp), hs.tail (by decide)⟩
    · split at h
      · cases h
      · next item t' read =>
        obtain ⟨hitem, ht'⟩ := ih.term hs read
        have hs' := isUtf8_skipBlank t'.length ht'
        split at h
        · cases h
        · next c t'' behind =>
          rw [behind] at hs'
          split at h
          · next closes =>
            cases h
            subst c
            exact ⟨.array (by simpa using hitem), hs'.tail (by decide)⟩
          · split at h
            · next comma =>
              subst c
              split at h
              · next items rest' more =>
                cases h
                obtain ⟨hitems, hrest⟩ := ih.items (hs'.tail (by decide)) more
                cases hitems with
                | array all => exact ⟨.array (List.forall_mem_cons.2 ⟨hitem, all⟩), hrest⟩
              · cases h
            · cases h

theorem readPairs_keeps {fuel : Nat} (ih : TermsKeep fuel) :
    Keeps Term.IsUtf8 (readPairs (fuel + 1)) := by
  intro t v rest ht h
  rw [readPairs] at h
  split at h
  · cases h
  · next key t' assigned =>
    split at h
    · cases h
    · next value t'' read =>
      obtain ⟨hvalue, ht''⟩ := ih.term (readAssigned_keeps ht assigned).2 read
      have hs := isUtf8_skipSpace ht''
      split at h
      · cases h
      · next c u behind =>
        rw [behind] at hs
        split at h
        · next closes =>
          cases h
          subst c
          exact ⟨.table (by simpa using hvalue), hs.tail (by decide)⟩
        · split at h
          · next comma =>
            subst c
            split at h
            · next pairs rest' more =>
              cases h
              obtain ⟨hpairs, hrest⟩ := ih.pairs (hs.tail (by decide)) more
              cases hpairs with
              | table all => exact ⟨.table (List.forall_mem_cons.2 ⟨hvalue, all⟩), hrest⟩
            · cases h
          · cases h

theorem terms_keep (fuel : Nat) : TermsKeep fuel := by
  induction fuel with
  | zero =>
      refine ⟨?_, ?_, ?_⟩
      all_goals
        intro t v rest ht h
        cases h
  | succ fuel ih => exact ⟨readTerm_keeps ih, readItems_keeps ih, readPairs_keeps ih⟩

/-- A statement whose value has texts in UTF-8. -/
def Statement.IsUtf8 : Statement → Prop
  | .assign _ v => v.IsUtf8
  | _ => True

theorem readStatement_keeps : Keeps Statement.IsUtf8 readStatement := by
  intro t s rest ht h
  cases t with
  | nil => cases h
  | cons b t =>
      simp only [readStatement] at h
      split at h
      · next bracket =>
        subst b
        have hin := ht.tail (by decide)
        cases t with
        | nil => cases h
        | cons c t =>
            simp only at h
            split at h
            · next again =>
              subst c
              obtain ⟨⟨key, t'⟩, read, h⟩ := Option.bind_eq_some_iff.1 h
              obtain ⟨u, first, h⟩ := Option.bind_eq_some_iff.1 h
              obtain ⟨w, second, h⟩ := Option.bind_eq_some_iff.1 h
              cases h
              have hkey := (readKey_keeps _ (hin.tail (by decide)) read).2
              exact ⟨trivial, isUtf8_readByte? (by decide)
                (isUtf8_readByte? (by decide) hkey first) second⟩
            · obtain ⟨⟨key, t'⟩, read, h⟩ := Option.bind_eq_some_iff.1 h
              obtain ⟨u, first, h⟩ := Option.bind_eq_some_iff.1 h
              cases h
              exact ⟨trivial, isUtf8_readByte? (by decide) (readKey_keeps _ hin read).2 first⟩
      · obtain ⟨⟨key, t'⟩, assigned, h⟩ := Option.bind_eq_some_iff.1 h
        obtain ⟨⟨value, u⟩, read, h⟩ := Option.bind_eq_some_iff.1 h
        cases h
        exact (terms_keep _).term (readAssigned_keeps ht assigned).2 read

theorem isUtf8_readLineEnd {t rest : Text} (ht : IsUtf8 t) (h : readLineEnd t = some ((), rest)) :
    IsUtf8 rest := by
  have hs := isUtf8_skipSpace ht
  rw [readLineEnd] at h
  split at h
  · cases h
    exact .nil
  · next b u same =>
    split at h
    · cases h
      exact hs
    · split at h
      · cases h
        exact isUtf8_skipLine hs
      · cases h

theorem readStatements_utf8 {fuel : Nat} {t : Text} {ss : List Statement} (ht : IsUtf8 t)
    (h : readStatements fuel t = some ss) : ∀ s ∈ ss, s.IsUtf8 := by
  induction fuel generalizing t ss with
  | zero => cases h
  | succ fuel ih =>
      have hs := isUtf8_skipBlank t.length ht
      rw [readStatements] at h
      simp only at h
      split at h
      · cases h
        simp
      · obtain ⟨⟨s, t'⟩, read, h⟩ := Option.bind_eq_some_iff.1 h
        obtain ⟨⟨⟨⟩, u⟩, line, h⟩ := Option.bind_eq_some_iff.1 h
        obtain ⟨more, behind, h⟩ := Option.bind_eq_some_iff.1 h
        cases h
        obtain ⟨value, ht'⟩ := readStatement_keeps hs read
        exact List.forall_mem_cons.2 ⟨value, ih (isUtf8_readLineEnd ht' line) behind⟩

/-- All texts in a document are UTF-8. -/
theorem parse_utf8 {t : Text} {ss : List Statement} (h : parse t = some ss) :
    ∀ s ∈ ss, s.IsUtf8 := by
  obtain ⟨cs, chars, h⟩ := Option.bind_eq_some_iff.1 h
  split at h
  · exact readStatements_utf8 (Text.isUtf8_of_chars? chars) h
  · cases h

/-- A value whose texts are UTF-8, those in tables aside. -/
inductive Datum.IsUtf8 : Datum → Prop where
  | text {t : Text} : t.IsUtf8 → Datum.IsUtf8 (.text t)
  | integer (n : Int) : Datum.IsUtf8 (.integer n)
  | float (x : Float) : Datum.IsUtf8 (.float x)
  | boolean (b : Bool) : Datum.IsUtf8 (.boolean b)
  | moment (m : Moment) : Datum.IsUtf8 (.moment m)
  | list {items : List Datum} : (∀ d ∈ items, Datum.IsUtf8 d) → Datum.IsUtf8 (.list items)
  | table (entries : Entries) : Datum.IsUtf8 (.table entries)
  | tables (items : List Entries) : Datum.IsUtf8 (.tables items)

/-- A table whose own entries have texts in UTF-8. -/
def Entries.IsUtf8 (es : Entries) : Prop := ∀ e ∈ es, e.2.IsUtf8

theorem Entries.isUtf8_put {es : Entries} (h : es.IsUtf8) (k : Text) {v : Datum} (hv : v.IsUtf8) :
    (es.put k v).IsUtf8 := by
  induction es with
  | nil => exact List.forall_mem_cons.2 ⟨hv, by simp⟩
  | cons e es ih =>
      obtain ⟨first, rest⟩ := List.forall_mem_cons.1 h
      rw [Entries.put]
      split
      · exact List.forall_mem_cons.2 ⟨hv, rest⟩
      · exact List.forall_mem_cons.2 ⟨first, ih rest⟩

/-- A change below an entry leaves a table or an array of tables there. -/
theorem Entries.isUtf8_within {f : Entries → Option Entries}
    (keeps : ∀ {es es' : Entries}, es.IsUtf8 → f es = some es' → es'.IsUtf8) {path : Path}
    {es es' : Entries}
    (h : es.IsUtf8) (done : es.within f path = some es') : es'.IsUtf8 := by
  cases path with
  | nil => exact keeps h done
  | cons k path =>
      rw [Entries.within] at done
      split at done
      · obtain ⟨sub, -, rfl⟩ := Option.map_eq_some_iff.1 done
        exact isUtf8_put h k (.table sub)
      · obtain ⟨last, -, done⟩ := Option.bind_eq_some_iff.1 done
        obtain ⟨last', -, done⟩ := Option.bind_eq_some_iff.1 done
        cases done
        exact isUtf8_put h k (.tables _)
      · cases done

namespace Builder

/-- A document on the way whose own entries have texts in UTF-8. -/
def IsUtf8 (b : Builder) : Prop := b.root.IsUtf8

theorem isUtf8_within_put {b : Builder} (h : b.IsUtf8) {key : Text} {v : Datum}
    (hv : v.IsUtf8) {path : Path}
    {root : Entries} (done : b.root.within (fun es => some (es.put key v)) path = some root) :
    root.IsUtf8 := by
  refine Entries.isUtf8_within (fun {es es'} hes same => ?_) h done
  cases same
  exact Entries.isUtf8_put hes key hv

theorem isUtf8_setValue {b b' : Builder} (h : b.IsUtf8) {key : Text} {v : Datum} (hv : v.IsUtf8)
    (done : b.setValue key v = some b') : b'.IsUtf8 := by
  unfold setValue at done
  simp only [Option.bind_eq_bind, Option.pure_def] at done
  -- Whichever table the key belongs to, its entries do not matter.
  split at done
  all_goals
    obtain ⟨table, -, done⟩ := Option.bind_eq_some_iff.1 done
    split at done
    all_goals
      obtain ⟨entries, -, done⟩ := Option.bind_eq_some_iff.1 done
      split at done
      · obtain ⟨root, within, done⟩ := Option.bind_eq_some_iff.1 done
        cases done
        exact isUtf8_within_put h hv within
      · split at done
        · obtain ⟨root, within, done⟩ := Option.bind_eq_some_iff.1 done
          cases done
          exact @isUtf8_within_put b h _ _ hv _ _ within
        · split at done
          · cases done
            exact h
          · cases done

theorem isUtf8_openParents {path done : Path} {b b' : Builder} (h : b.IsUtf8)
    (opened : b.openParents done path = some b') : b'.IsUtf8 := by
  induction path generalizing b done with
  | nil =>
      cases opened
      exact h
  | cons k path ih =>
      rw [openParents] at opened
      simp only [Option.bind_eq_bind, Option.pure_def, Option.bind_some] at opened
      split at opened
      · obtain ⟨root, within, opened⟩ := Option.bind_eq_some_iff.1 opened
        exact ih (@isUtf8_within_put b h _ _ (.table []) _ _ within) opened
      · exact ih h opened
      · exact ih h opened
      · cases opened

theorem isUtf8_enter {b b' : Builder} (h : b.IsUtf8) {key : Path} {isElement : Bool}
    (entered : b.enter key isElement = some b') : b'.IsUtf8 := by
  obtain ⟨last, -, entered⟩ := Option.bind_eq_some_iff.1 entered
  obtain ⟨c, opened, entered⟩ := Option.bind_eq_some_iff.1 entered
  have hc := isUtf8_openParents h opened
  cases isElement with
  | true =>
      obtain ⟨root, within, entered⟩ := Option.bind_eq_some_iff.1 entered
      cases entered
      refine Entries.isUtf8_within (fun {es es'} hes added => ?_) hc within
      split at added
      · cases added
        exact Entries.isUtf8_put hes last (.tables _)
      · cases added
        exact Entries.isUtf8_put hes last (.tables _)
      · cases added
  | false =>
      obtain ⟨d, made, entered⟩ := Option.bind_eq_some_iff.1 entered
      cases entered
      exact @isUtf8_setValue { c with context := key.dropLast } d hc _ _ (.table []) made

theorem isUtf8_enterImplicit {path : Path} {b b' : Builder} (h : b.IsUtf8)
    (entered : b.enterImplicit path = some b') : b'.IsUtf8 := by
  induction path generalizing b with
  | nil =>
      cases entered
      exact h
  | cons k path ih =>
      obtain ⟨c, first, entered⟩ := Option.bind_eq_some_iff.1 entered
      exact ih (@isUtf8_enter (b.markImplicit _) _ h _ _ first) entered

mutual

theorem isUtf8_value {b b' : Builder} (h : b.IsUtf8) {key : Text} {inArray : Bool} (v : Term)
    (hv : v.IsUtf8)
    {d : Datum} (built : b.value key inArray v = some (d, b')) : d.IsUtf8 ∧ b'.IsUtf8 := by
  cases v with
  | text t =>
      cases built
      cases hv with
      | text ht => exact ⟨.text ht, h⟩
  | integer n =>
      cases built
      exact ⟨.integer n, h⟩
  | float x =>
      cases built
      exact ⟨.float x, h⟩
  | boolean v =>
      cases built
      exact ⟨.boolean v, h⟩
  | moment m =>
      cases built
      exact ⟨.moment m, h⟩
  | array items =>
      rw [value] at built
      obtain ⟨⟨ds, c⟩, inside, built⟩ := Option.bind_eq_some_iff.1 built
      cases built
      cases hv with
      | array all =>
          obtain ⟨hds, hc⟩ := @isUtf8_items (b.noteKind key true) _ h key items all _ inside
          exact ⟨.list hds, hc⟩
  | table ps =>
      rw [value] at built
      obtain ⟨c, entered, built⟩ := Option.bind_eq_some_iff.1 built
      obtain ⟨⟨es, c'⟩, inside, built⟩ := Option.bind_eq_some_iff.1 built
      cases built
      have hc : c.IsUtf8 := @isUtf8_enter (b.markImplicit _) _ h _ _ entered
      cases hv with
      | table all => exact ⟨.table es, @isUtf8_pairs c c' hc _ _ _ ps all inside⟩

theorem isUtf8_items {b b' : Builder} (h : b.IsUtf8) {key : Text} (vs : List Term)
    (hvs : ∀ v ∈ vs, v.IsUtf8)
    {ds : List Datum} (built : b.items' key vs = some (ds, b')) :
    (∀ d ∈ ds, d.IsUtf8) ∧ b'.IsUtf8 := by
  cases vs with
  | nil =>
      cases built
      exact ⟨by simp, h⟩
  | cons v vs =>
      rw [items'] at built
      obtain ⟨⟨d, c⟩, first, built⟩ := Option.bind_eq_some_iff.1 built
      obtain ⟨⟨ds, c'⟩, more, built⟩ := Option.bind_eq_some_iff.1 built
      cases built
      obtain ⟨hv, hvs⟩ := List.forall_mem_cons.1 hvs
      obtain ⟨hd, hc⟩ := isUtf8_value h v hv first
      obtain ⟨hds, hc'⟩ := isUtf8_items hc vs hvs more
      exact ⟨List.forall_mem_cons.2 ⟨hd, hds⟩, hc'⟩

theorem isUtf8_pairs {b b' : Builder} (h : b.IsUtf8) {home : Path} {es es' : Entries}
    (ps : List (Path × Term))
    (hps : ∀ p ∈ ps, p.2.IsUtf8) (built : b.pairs home es ps = some (es', b')) : b'.IsUtf8 := by
  cases ps with
  | nil =>
      cases built
      exact h
  | cons p ps =>
      obtain ⟨key, v⟩ := p
      unfold pairs at built
      obtain ⟨last, -, built⟩ := Option.bind_eq_some_iff.1 built
      obtain ⟨c, entered, built⟩ := Option.bind_eq_some_iff.1 built
      obtain ⟨⟨d, c'⟩, first, built⟩ := Option.bind_eq_some_iff.1 built
      obtain ⟨c'', set, built⟩ := Option.bind_eq_some_iff.1 built
      obtain ⟨es'', -, built⟩ := Option.bind_eq_some_iff.1 built
      obtain ⟨hv, hps⟩ := List.forall_mem_cons.1 hps
      have hc : c.IsUtf8 := @isUtf8_enterImplicit _ { b with context := home } c h entered
      obtain ⟨hd, hc'⟩ := @isUtf8_value (c.note _) c' hc _ _ v hv d first
      have hc'' : c''.IsUtf8 := isUtf8_setValue hc' hd set
      exact @isUtf8_pairs
        { c''.noteKind last _ with context := home } b' hc'' home es'' es' ps hps built

end

theorem isUtf8_statement {b b' : Builder} (h : b.IsUtf8) {s : Statement} (hs : s.IsUtf8)
    (built : b.statement s = some b') : b'.IsUtf8 := by
  cases s with
  | header key =>
      obtain ⟨c, entered, built⟩ := Option.bind_eq_some_iff.1 built
      cases built
      exact (isUtf8_enter h entered : c.IsUtf8)
  | element key =>
      obtain ⟨c, entered, built⟩ := Option.bind_eq_some_iff.1 built
      cases built
      exact (isUtf8_enter h entered : c.IsUtf8)
  | assign key v =>
      obtain ⟨last, -, built⟩ := Option.bind_eq_some_iff.1 built
      obtain ⟨c, entered, built⟩ := Option.bind_eq_some_iff.1 built
      obtain ⟨⟨d, c'⟩, first, built⟩ := Option.bind_eq_some_iff.1 built
      obtain ⟨c'', set, built⟩ := Option.bind_eq_some_iff.1 built
      cases built
      have hc : c.IsUtf8 := isUtf8_enterImplicit h entered
      obtain ⟨hd, hc'⟩ := @isUtf8_value (c.note _) c' hc _ _ v hs d first
      exact (isUtf8_setValue hc' hd set : c''.IsUtf8)

theorem isUtf8_statements {ss : List Statement} (hs : ∀ s ∈ ss, s.IsUtf8) {b b' : Builder}
    (h : b.IsUtf8)
    (built : ss.foldlM statement b = some b') : b'.IsUtf8 := by
  induction ss generalizing b with
  | nil =>
      cases built
      exact h
  | cons s ss ih =>
      obtain ⟨first, rest⟩ := List.forall_mem_cons.1 hs
      rw [List.foldlM_cons] at built
      obtain ⟨c, step, built⟩ := Option.bind_eq_some_iff.1 built
      exact ih rest (isUtf8_statement h first step) built

end Builder

/-- Every text in an entry of a document is UTF-8. -/
theorem Document.isUtf8_root {t : Text} {doc : Document} (h : Document.read t = some doc) :
    doc.root.IsUtf8 := by
  obtain ⟨ss, parsed, h⟩ := Option.bind_eq_some_iff.1 h
  obtain ⟨b, built, h⟩ := Option.bind_eq_some_iff.1 h
  cases h
  refine Builder.isUtf8_statements (parse_utf8 parsed) ?_ built
  exact fun e mem => absurd mem (List.not_mem_nil)

end Lightboard.Toml
