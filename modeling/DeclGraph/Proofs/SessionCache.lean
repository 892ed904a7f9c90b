import DeclGraph.Proofs.LinkedGraph
import DeclGraph.Session
import DeclGraph.TypeScript.Grammar

/-!
# Coherence of sessions

A session keeps the graph that it extracted last.  As long as its texts have UTF-8 forms,
and different texts have different digests, it answers as if it extracted the graph of its
current text each time.

* `Coherent` says that the kept graph is the graph of the text that was set last of those
  with a UTF-8 form, and that its stamp has been given out.  Every query preserves it.
* A failed access changes nothing, so that it fails in the same way again.
* A stamp stays as long as the last text with a UTF-8 form does.  Once another one has been
  set it is gone for good (`Past`), because new graphs get new stamps, even if the old text
  comes back.
* A text without a UTF-8 form becomes the current text, and the kept graph stays.  So a
  session that keeps a graph hands it out while its text has none.
-/

namespace DeclGraph

open Syntax (Node)

section Queries

/-- The text that a query sets. -/
def Query.text? : Query → Option Points
  | .setSource text => some text
  | _ => none

/-- The text that a query sets, if it has a UTF-8 form. -/
def Query.encoded? (q : Query) : Option String :=
  q.text?.bind Points.encode?

/-- The texts that a session has in the course of several queries. -/
def textsOf (source : Points) (qs : List Query) : List Points :=
  source :: qs.filterMap Query.text?

/-- The text that a session has after several queries. -/
def currentSource (source : Points) (qs : List Query) : Points :=
  qs.foldl (fun current q => q.text?.getD current) source

/-- The last text with a UTF-8 form after several queries. -/
def lastEncoded (last : Option String) (qs : List Query) : Option String :=
  qs.foldl (fun last q => q.encoded?.or last) last

theorem lastEncoded_append (last : Option String) (qs more : List Query) :
    lastEncoded last (qs ++ more) = lastEncoded (lastEncoded last qs) more :=
  List.foldl_append

theorem encode?_eq_some_iff {p : Points} {text : String} :
    p.encode? = some text ↔ p = .plain text := by
  cases p <;> simp [Points.encode?]

/-- If all texts have UTF-8 forms, the last one of them is the current text. -/
theorem lastEncoded_eq_encode?_currentSource
    {source : Points} {qs : List Query}
    (h : ∀ text ∈ textsOf source qs, ∃ s : String, text = s) :
    ∃ s : String, currentSource source qs = s ∧ lastEncoded source.encode? qs = some s := by
  induction qs generalizing source with
  | nil =>
      obtain ⟨s, rfl⟩ := h source List.mem_cons_self
      exact ⟨s, rfl, rfl⟩
  | cons q qs ih =>
      cases q with
      | setSource text =>
          obtain ⟨-, htexts⟩ := List.forall_mem_cons.1 h
          obtain ⟨s, rfl⟩ := htexts text List.mem_cons_self
          exact @ih (.plain s) htexts
      | source => exact @ih source h
      | graph => exact @ih source h
      | models => exact @ih source h

theorem textsOf_append_subset (source : Points) (qs more : List Query) :
    textsOf source qs ⊆ textsOf source (qs ++ more) := by
  unfold textsOf
  rw [List.filterMap_append]
  exact List.cons_subset_cons _ (List.subset_append_left _ _)

theorem mem_textsOf_setSource (source text : Points) (qs more : List Query) :
    text ∈ textsOf source (qs ++ .setSource text :: more) := by
  unfold textsOf
  rw [List.filterMap_append]
  exact List.mem_cons_of_mem _ (List.mem_append_right _ List.mem_cons_self)

/-- The texts with UTF-8 forms in the course of several queries. -/
def encodedTexts (last : Option String) (qs : List Query) : List String :=
  last.toList ++ qs.filterMap Query.encoded?

/-- Different texts have different digests. -/
def DistinctDigests (texts : List String) : Prop :=
  ∀ a ∈ texts, ∀ b ∈ texts, Text.digest a = Text.digest b → a = b

theorem DistinctDigests.mono
    {texts more : List String}
    (h : DistinctDigests more)
    (hsub : texts ⊆ more) :
    DistinctDigests texts :=
  fun a ha b hb => h a (hsub ha) b (hsub hb)

theorem encodedTexts_cons_subset (last : Option String) (q : Query) (qs : List Query) :
    encodedTexts (q.encoded?.or last) qs ⊆ encodedTexts last (q :: qs) := by
  unfold encodedTexts
  cases hq : q.encoded? with
  | none =>
      rw [List.filterMap_cons_none hq]
      exact List.Subset.refl _
  | some text =>
      rw [List.filterMap_cons_some hq]
      exact List.subset_append_right _ _

/-- The texts of a run that goes on are texts of the whole run. -/
theorem encodedTexts_lastEncoded_subset (last : Option String) (qs more : List Query) :
    encodedTexts (lastEncoded last qs) more ⊆ encodedTexts last (qs ++ more) := by
  induction qs generalizing last with
  | nil => exact List.Subset.refl _
  | cons q qs ih => exact List.Subset.trans (ih _) (encodedTexts_cons_subset last q (qs ++ more))

theorem encodedTexts_append_subset (last : Option String) (qs more : List Query) :
    encodedTexts last qs ⊆ encodedTexts last (qs ++ more) := by
  unfold encodedTexts
  rw [List.filterMap_append, ← List.append_assoc]
  exact List.subset_append_left _ _

/-- The stamp that a reply hands out. -/
def Reply.stamp? : Reply → Option Nat
  | .graph (.ok (stamp, _)) => some stamp
  | .models (.ok (stamp, _)) => some stamp
  | _ => none

/-- The fault that the reply to an access reports. -/
def Reply.fault? : Reply → Option SourceFault
  | .graph (.error f) => some f
  | .models (.error f) => some f
  | _ => none

/-- Handing out the models of a graph is handing out the graph, as far as stamps go. -/
theorem Reply.stamp?_models (o : Except SourceFault (Nat × Graph)) :
    (Reply.models (o.map fun handed => (handed.1, handed.2.models))).stamp? =
      (Reply.graph o).stamp? := by
  cases o <;> rfl

theorem Reply.fault?_models (o : Except SourceFault (Nat × Graph)) :
    (Reply.models (o.map fun handed => (handed.1, handed.2.models))).fault? =
      (Reply.graph o).fault? := by
  cases o <;> rfl

/-- What a session with a text should reply, if that is how the extraction of the text
ends: an access has the graph of the text, or its models, or the fault. -/
def Reply.Answers (current : Points) (extraction : Except SourceFault Graph) :
    Query → Reply → Prop
  | .setSource text, reply =>
    reply = .set (if text.encode?.isSome then .ok () else .error .unencodable)
  | .source, reply => reply = .source current
  | .graph, reply => ∃ o, reply = .graph o ∧ o.map (·.2) = extraction
  | .models, reply => ∃ o, reply = .models o ∧ o.map (·.2) = extraction.map (·.models)

end Queries

namespace Session

section Steps

variable {parse : String → Node} {last : Option String} {s : Session} {q : Query} {i : Nat}

/-- What an access can do: hand out the kept graph, keep and hand out a new one, or fail. -/
theorem access_cases (parse : String → Node) (s : Session) :
    (∃ c, s.cache = some c ∧ (s.access parse).1 = s ∧
      (s.access parse).2.outcome = .ok (c.stamp, c.graph)) ∨
    (∃ text g, s.cache = none ∧ s.source = .plain text ∧
      (extract s.options (parse text)).outcome = .ok g ∧
      (s.access parse).1 =
        { s with
          cache := some ⟨Text.digest text, s.extractions, g⟩
          extractions := s.extractions + 1 } ∧
      (s.access parse).2.outcome = .ok (s.extractions, g)) ∨
    (∃ f, s.cache = none ∧ extractText parse s.options s.source = .error f ∧
      (s.access parse).1 = s ∧ (s.access parse).2.outcome = .error f) := by
  unfold access
  cases hcache : s.cache with
  | some c => exact .inl ⟨c, rfl, rfl, rfl⟩
  | none =>
      dsimp only
      cases hsource : s.source with
      | cut t n rest => exact .inr (.inr ⟨.unencodable, rfl, rfl, rfl, rfl⟩)
      | plain text =>
          dsimp only [Points.encode?, extractText]
          cases hout : (extract s.options (parse text)).outcome with
          | ok g => exact .inr (.inl ⟨text, g, rfl, rfl, hout, rfl, rfl⟩)
          | error f => exact .inr (.inr ⟨.pass f, rfl, rfl, rfl, rfl⟩)

theorem outcome_models (parse : String → Node) (s : Session) :
    (s.models parse).2.outcome =
      (s.access parse).2.outcome.map fun handed => (handed.1, handed.2.models) :=
  rfl

/-- What a query can do to a session. -/
theorem serve_cases (parse : String → Node) (s : Session) (q : Query) :
    (∃ text, q = .setSource text ∧ (s.serve parse q).1 = (s.setSource text).1) ∨
    (q.text? = none ∧ (s.serve parse q).1 = s) ∨
    (∃ text g, q.text? = none ∧ s.cache = none ∧ s.source = .plain text ∧
      (extract s.options (parse text)).outcome = .ok g ∧
      (s.serve parse q).1 =
        { s with
          cache := some ⟨Text.digest text, s.extractions, g⟩
          extractions := s.extractions + 1 }) := by
  have haccess : (s.access parse).1 = s ∨
      ∃ text g, s.cache = none ∧ s.source = .plain text ∧
        (extract s.options (parse text)).outcome = .ok g ∧
        (s.access parse).1 =
          { s with
            cache := some ⟨Text.digest text, s.extractions, g⟩
            extractions := s.extractions + 1 } := by
    rcases access_cases parse s with
      ⟨c, -, hs, -⟩ | ⟨text, g, hcache, hsource, hg, hs, -⟩ | ⟨f, -, -, hs, -⟩
    · exact .inl hs
    · exact .inr ⟨text, g, hcache, hsource, hg, hs⟩
    · exact .inl hs
  cases q with
  | setSource text => exact .inl ⟨text, rfl, rfl⟩
  | source => exact .inr (.inl ⟨rfl, rfl⟩)
  | graph =>
      rcases haccess with hs | ⟨text, g, hcache, hsource, hg, hs⟩
      · exact .inr (.inl ⟨rfl, hs⟩)
      · exact .inr (.inr ⟨text, g, rfl, hcache, hsource, hg, hs⟩)
  | models =>
      rcases haccess with hs | ⟨text, g, hcache, hsource, hg, hs⟩
      · exact .inr (.inl ⟨rfl, hs⟩)
      · exact .inr (.inr ⟨text, g, rfl, hcache, hsource, hg, hs⟩)

/-- What setting a text does to all that is not kept. -/
theorem setSource_frame (s : Session) (text : Points) :
    (s.setSource text).1.options = s.options ∧ (s.setSource text).1.source = text ∧
      (s.setSource text).1.extractions = s.extractions := by
  cases text with
  | plain t => exact ⟨rfl, rfl, rfl⟩
  | cut t n rest => exact ⟨rfl, rfl, rfl⟩

theorem mem_cache_setSource_iff
    {text : Points} {c : Cached} :
    c ∈ (s.setSource text).1.cache
      ↔
    c ∈ s.cache ∧ ∀ t : String, text = t → c.digest = Text.digest t := by
  cases text with
  | plain t =>
      simp only [setSource, Points.encode?]
      rw [Option.mem_filter_iff, beq_iff_eq]
      refine and_congr_right fun _ => ⟨fun h t' ht' => ?_, fun h => h t rfl⟩
      cases ht'
      exact h
  | cut t n rest =>
      refine ⟨fun h => ⟨h, fun t' ht' => ?_⟩, And.left⟩
      cases ht'

theorem options_serve (parse : String → Node) (s : Session) (q : Query) :
    (s.serve parse q).1.options = s.options := by
  rcases serve_cases parse s q with ⟨text, -, hs⟩ | ⟨-, hs⟩ | ⟨text, g, -, -, -, -, hs⟩
  · rw [hs]
    exact (s.setSource_frame text).1
  · rw [hs]
  · rw [hs]

theorem source_serve (parse : String → Node) (s : Session) (q : Query) :
    (s.serve parse q).1.source = q.text?.getD s.source := by
  rcases serve_cases parse s q with ⟨text, rfl, hs⟩ | ⟨hq, hs⟩ | ⟨text, g, hq, -, -, -, hs⟩
  · rw [hs]
    exact (s.setSource_frame text).2.1
  · rw [hs, hq]
    rfl
  · rw [hs, hq]
    rfl

theorem extractions_le_serve (parse : String → Node) (s : Session) (q : Query) :
    s.extractions ≤ (s.serve parse q).1.extractions := by
  rcases serve_cases parse s q with ⟨text, -, hs⟩ | ⟨-, hs⟩ | ⟨text, g, -, -, -, -, hs⟩
  · exact Nat.le_of_eq (by rw [hs, (s.setSource_frame text).2.2])
  · exact Nat.le_of_eq (by rw [hs])
  · rw [hs]
    exact Nat.le_succ _

/-- The kept graph is the graph of the last text with a UTF-8 form, and its stamp has been
given out.  A current text with a UTF-8 form is that text. -/
structure Coherent (parse : String → Node) (last : Option String) (s : Session) : Prop where
  source_last : ∀ text : String, s.source = text → last = some text
  kept : ∀ c ∈ s.cache, ∃ text ∈ last, c.digest = Text.digest text ∧
    (extract s.options (parse text)).outcome = .ok c.graph
  stamp_lt : ∀ c ∈ s.cache, c.stamp < s.extractions

theorem coherent_new (parse : String → Node) (options : Options) (source : Points) :
    Coherent parse source.encode? { options, source } where
  source_last := fun _ h => encode?_eq_some_iff.2 h
  kept := fun _ hc => by cases hc
  stamp_lt := fun _ hc => by cases hc

/-- If a kept graph has the digest of a text, it is the graph of that text. -/
theorem Coherent.kept_of_digest
    {c : Cached} {new : String}
    (h : s.Coherent parse last)
    (hdigests : DistinctDigests (encodedTexts last [.setSource new]))
    (hc : c ∈ s.cache)
    (hdigest : c.digest = Text.digest new) :
    last = some new ∧ (extract s.options (parse new)).outcome = .ok c.graph := by
  obtain ⟨text, htext, htdigest, hg⟩ := h.kept c hc
  have hsame : new = text := by
    refine hdigests new ?_ text ?_ (hdigest.symm.trans htdigest)
    · exact List.mem_append_right _ (List.mem_singleton_self _)
    · exact List.mem_append_left _ (Option.mem_toList.2 htext)
  exact hsame ▸ ⟨htext, hg⟩

theorem Coherent.setSource
    {text : Points}
    (h : s.Coherent parse last)
    (hdigests : DistinctDigests (encodedTexts last [.setSource text])) :
    (s.setSource text).1.Coherent parse (text.encode?.or last) := by
  obtain ⟨hoptions, hsource, hextractions⟩ := s.setSource_frame text
  refine ⟨fun t ht => ?_, fun c hc => ?_, fun c hc => ?_⟩
  · rw [encode?_eq_some_iff.2 (hsource.symm.trans ht)]
    rfl
  · obtain ⟨hold, hdigest⟩ := mem_cache_setSource_iff.1 hc
    rw [hoptions]
    cases text with
    | cut t n rest => exact h.kept c hold
    | plain new =>
        exact ⟨new, rfl, hdigest new rfl, (h.kept_of_digest hdigests hold (hdigest new rfl)).2⟩
  · rw [hextractions]
    exact h.stamp_lt c (mem_cache_setSource_iff.1 hc).1

/-- Every query keeps a session coherent. -/
theorem Coherent.serve
    (h : s.Coherent parse last)
    (hdigests : DistinctDigests (encodedTexts last [q])) :
    (s.serve parse q).1.Coherent parse (q.encoded?.or last) := by
  have hsame : q.text? = none → q.encoded?.or last = last := by
    intro hq
    rw [Query.encoded?, hq]
    rfl
  rcases serve_cases parse s q with ⟨text, rfl, hs⟩ | ⟨hq, hs⟩ | ⟨text, g, hq, -, hsource, hg, hs⟩
  · rw [hs]
    exact h.setSource hdigests
  · rw [hs, hsame hq]
    exact h
  · rw [hs, hsame hq]
    refine ⟨h.source_last, ?_, ?_⟩
    · rintro c ⟨⟩
      exact ⟨text, h.source_last text hsource, rfl, hg⟩
    · rintro c ⟨⟩
      exact Nat.lt_succ_self _

/-- A session answers as the extraction of a text ends, if an access does. -/
theorem answers_of_access
    {extraction : Except SourceFault Graph}
    (h : (s.access parse).2.outcome.map (·.2) = extraction)
    (q : Query) :
    Reply.Answers s.source extraction q (s.serve parse q).2 := by
  cases q with
  | setSource text =>
      cases text with
      | plain t => rfl
      | cut t n rest => rfl
  | source => rfl
  | graph => exact ⟨_, rfl, h⟩
  | models =>
      refine ⟨(s.models parse).2.outcome, rfl, ?_⟩
      rw [outcome_models, ← h]
      cases (s.access parse).2.outcome with
      | ok handed => rfl
      | error f => rfl

/-- A coherent session answers as if it extracted each time, while its text has a UTF-8 form
or no graph is kept. -/
theorem Coherent.answers
    (h : s.Coherent parse last)
    (hcurrent : s.cache = none ∨ ∃ text : String, s.source = text)
    (q : Query) :
    Reply.Answers s.source (extractText parse s.options s.source) q (s.serve parse q).2 := by
  refine answers_of_access ?_ q
  rcases access_cases parse s with ⟨c, hc, -, hout⟩ | ⟨text, g, -, hsource, hg, -, hout⟩ |
    ⟨f, -, hf, -, hout⟩
  · rcases hcurrent with hnone | ⟨text, htext⟩
    · cases hnone.symm.trans hc
    · obtain ⟨t, ht, -, hg⟩ := h.kept c hc
      cases (h.source_last text htext).symm.trans ht
      rw [hout, htext, extractText, hg]
      rfl
  · rw [hout, hsource, extractText, hg]
    rfl
  · rw [hout, hf]
    rfl

/-- A coherent session that keeps a graph answers as if the last text with a UTF-8 form were
its text. -/
theorem Coherent.answers_kept
    {c : Cached}
    (h : s.Coherent parse last)
    (hc : s.cache = some c) :
    ∃ text g, last = some text ∧ (extract s.options (parse text)).outcome = .ok g ∧
      ∀ q, Reply.Answers s.source (extractText parse s.options text) q (s.serve parse q).2 := by
  obtain ⟨text, htext, -, hg⟩ := h.kept c hc
  refine ⟨text, c.graph, htext, hg, answers_of_access ?_⟩
  unfold access
  rw [hc, extractText, hg]
  rfl

/-- An access that fails leaves the session as it is. -/
theorem serve_of_fault
    {f : SourceFault}
    (h : (s.serve parse q).2.fault? = some f) :
    (s.serve parse q).1 = s := by
  have haccess : (Reply.graph (s.access parse).2.outcome).fault? = some f →
      (s.access parse).1 = s := by
    intro hf
    rcases access_cases parse s with
      ⟨c, -, hs, -⟩ | ⟨text, g, -, -, -, -, hout⟩ | ⟨f, -, -, hs, -⟩
    · exact hs
    · rw [hout] at hf
      cases hf
    · exact hs
  cases q with
  | setSource text => cases h
  | source => rfl
  | graph => exact haccess h
  | models => exact haccess ((Reply.fault?_models _).symm.trans h)

end Steps

section Stamps

variable {parse : String → Node} {last : Option String} {s : Session} {q : Query} {i : Nat}

/-- The stamp of the kept graph. -/
def stamp? (s : Session) : Option Nat :=
  s.cache.map (·.stamp)

/-- What has been handed out is kept. -/
theorem stamp?_of_handed
    (h : (s.serve parse q).2.stamp? = some i) :
    q.text? = none ∧ (s.serve parse q).1.stamp? = some i := by
  have haccess : (Reply.graph (s.access parse).2.outcome).stamp? = some i →
      (s.access parse).1.stamp? = some i := by
    intro hi
    rcases access_cases parse s with
      ⟨c, hc, hs, hout⟩ | ⟨text, g, -, -, -, hs, hout⟩ | ⟨f, -, -, -, hout⟩
    · rw [hout] at hi
      rw [hs, stamp?, hc, ← hi]
      rfl
    · rw [hout] at hi
      rw [hs, ← hi]
      rfl
    · rw [hout] at hi
      cases hi
  cases q with
  | setSource text => cases h
  | source => cases h
  | graph => exact ⟨rfl, haccess h⟩
  | models => exact ⟨rfl, haccess ((Reply.stamp?_models _).symm.trans h)⟩

/-- What is kept is handed out. -/
theorem stamp?_graph_of_kept
    (parse : String → Node)
    (h : s.stamp? = some i) :
    (s.serve parse .graph).2.stamp? = some i := by
  obtain ⟨c, hc, rfl⟩ := Option.map_eq_some_iff.1 h
  show (Reply.graph (s.access parse).2.outcome).stamp? = _
  rw [access, hc]
  rfl

/-- A stamp stays as long as the last text with a UTF-8 form does. -/
theorem Coherent.stamp?_serve
    (h : s.Coherent parse last)
    (hi : s.stamp? = some i)
    (hq : ∀ text : String, q = .setSource text → last = some text) :
    (s.serve parse q).1.stamp? = some i := by
  obtain ⟨c, hc, rfl⟩ := Option.map_eq_some_iff.1 hi
  rcases serve_cases parse s q with ⟨text, rfl, hs⟩ | ⟨-, hs⟩ | ⟨text, g, -, hnone, -, -, -⟩
  · have hkept : c ∈ (s.setSource text).1.cache := by
      refine mem_cache_setSource_iff.2 ⟨hc, fun t ht => ?_⟩
      obtain ⟨t', ht', hdigest, -⟩ := h.kept c hc
      cases (hq t (congrArg _ ht)).symm.trans ht'
      exact hdigest
    rw [hs, stamp?, Option.mem_def.1 hkept]
    rfl
  · rw [hs]
    exact hi
  · rw [hnone] at hc
    cases hc

/-- A stamp that has been given out and is not the one of the kept graph. -/
structure Past (i : Nat) (s : Session) : Prop where
  given : i < s.extractions
  stamp?_ne : s.stamp? ≠ some i

/-- A past stamp does not come back. -/
theorem Past.serve
    (h : s.Past i)
    (parse : String → Node) (q : Query) :
    (s.serve parse q).1.Past i := by
  refine ⟨Nat.lt_of_lt_of_le h.given (extractions_le_serve parse s q), ?_⟩
  rcases serve_cases parse s q with ⟨text, -, hs⟩ | ⟨-, hs⟩ | ⟨text, g, -, -, -, -, hs⟩
  · rw [hs]
    intro hi
    obtain ⟨c, hc, rfl⟩ := Option.map_eq_some_iff.1 hi
    refine h.stamp?_ne ?_
    rw [stamp?, (mem_cache_setSource_iff.1 hc).1]
    rfl
  · rw [hs]
    exact h.stamp?_ne
  · rw [hs]
    intro hi
    cases hi
    exact Nat.lt_irrefl _ h.given

/-- Setting another text with a UTF-8 form makes all stamps past. -/
theorem Coherent.past_setSource
    {text : String}
    (h : s.Coherent parse last)
    (hi : i < s.extractions)
    (hdigests : DistinctDigests (encodedTexts last [.setSource text]))
    (hne : last ≠ some text) :
    (s.setSource text).1.Past i := by
  refine ⟨hi, fun hstamp => ?_⟩
  obtain ⟨c, hc, -⟩ := Option.map_eq_some_iff.1 hstamp
  obtain ⟨hc, hdigest⟩ := mem_cache_setSource_iff.1 hc
  exact hne (h.kept_of_digest hdigests hc (hdigest text rfl)).1

end Stamps

section Runs

variable {parse : String → Node} {last : Option String} {s : Session} {qs : List Query} {i : Nat}

theorem run_append (parse : String → Node) (s : Session) (qs more : List Query) :
    s.run parse (qs ++ more) = (s.run parse qs).run parse more :=
  List.foldl_append

theorem run_cons (parse : String → Node) (s : Session) (q : Query) (qs : List Query) :
    s.run parse (q :: qs) = (s.serve parse q).1.run parse qs :=
  rfl

theorem options_run (parse : String → Node) (s : Session) (qs : List Query) :
    (s.run parse qs).options = s.options := by
  induction qs generalizing s with
  | nil => rfl
  | cons q qs ih => rw [run_cons, ih, options_serve]

theorem source_run (parse : String → Node) (s : Session) (qs : List Query) :
    (s.run parse qs).source = currentSource s.source qs := by
  induction qs generalizing s with
  | nil => rfl
  | cons q qs ih =>
      rw [run_cons, ih, source_serve]
      rfl

theorem extractions_le_run (parse : String → Node) (s : Session) (qs : List Query) :
    s.extractions ≤ (s.run parse qs).extractions := by
  induction qs generalizing s with
  | nil => exact Nat.le_refl _
  | cons q qs ih => exact Nat.le_trans (extractions_le_serve parse s q) (ih _)

theorem Past.run
    (h : s.Past i)
    (parse : String → Node) (qs : List Query) :
    (s.run parse qs).Past i := by
  induction qs generalizing s with
  | nil => exact h
  | cons q qs ih => exact ih (h.serve parse q)

/-- A run keeps a session coherent. -/
theorem Coherent.run
    (h : s.Coherent parse last)
    (hdigests : DistinctDigests (encodedTexts last qs)) :
    (s.run parse qs).Coherent parse (lastEncoded last qs) := by
  induction qs generalizing s last with
  | nil => exact h
  | cons q qs ih =>
      refine ih (h.serve (hdigests.mono (encodedTexts_append_subset _ [q] qs))) ?_
      exact hdigests.mono (encodedTexts_cons_subset _ q qs)

/-- A stamp stays through a run that sets no other text with a UTF-8 form than the last one. -/
theorem Coherent.stamp?_run
    (h : s.Coherent parse last)
    (hdigests : DistinctDigests (encodedTexts last qs))
    (hi : s.stamp? = some i)
    (hqs : ∀ kept (text : String) rest, qs = kept ++ .setSource text :: rest →
      lastEncoded last kept = some text) :
    (s.run parse qs).stamp? = some i := by
  induction qs generalizing s last with
  | nil => exact hi
  | cons q qs ih =>
      refine ih (h.serve (hdigests.mono (encodedTexts_append_subset _ [q] qs))) ?_ ?_ ?_
      · exact hdigests.mono (encodedTexts_cons_subset _ q qs)
      · exact h.stamp?_serve hi fun text hq => hqs [] text qs (hq ▸ rfl)
      · intro kept text rest hsplit
        exact hqs (q :: kept) text rest (congrArg _ hsplit)

/-- A run in which another text with a UTF-8 form is set makes all stamps past. -/
theorem Coherent.past_run
    {kept rest : List Query} {text : String}
    (h : s.Coherent parse last)
    (hdigests : DistinctDigests (encodedTexts last (kept ++ .setSource text :: rest)))
    (hi : i < s.extractions)
    (hne : lastEncoded last kept ≠ some text) :
    (s.run parse (kept ++ .setSource text :: rest)).Past i := by
  have hkept := h.run (hdigests.mono (encodedTexts_append_subset _ kept _))
  have hgiven := Nat.lt_of_lt_of_le hi (extractions_le_run parse s kept)
  have hlater := hdigests.mono (encodedTexts_lastEncoded_subset _ kept _)
  rw [run_append, run_cons]
  exact (hkept.past_setSource hgiven
    (hlater.mono (encodedTexts_append_subset _ [.setSource text] rest)) hne).run parse rest

/-- A later access hands out the graph that is kept now exactly when no other text with a
UTF-8 form is set before it. -/
theorem Coherent.stamp_eq_iff
    {q' : Query} {j : Nat}
    (h : s.Coherent parse last)
    (hdigests : DistinctDigests (encodedTexts last qs))
    (hi : s.stamp? = some i)
    (hj : ((s.run parse qs).serve parse q').2.stamp? = some j) :
    i = j
      ↔
    ∀ kept (text : String) rest, qs = kept ++ .setSource text :: rest →
      lastEncoded last kept = some text := by
  obtain ⟨hq', hhanded⟩ := stamp?_of_handed hj
  constructor
  · rintro rfl kept text rest rfl
    obtain ⟨c, hc, rfl⟩ := Option.map_eq_some_iff.1 hi
    by_contra hne
    exact ((h.past_run hdigests (h.stamp_lt c hc) hne).serve parse q').stamp?_ne hhanded
  · intro hkept
    have hstays := (h.run hdigests).stamp?_serve (h.stamp?_run hdigests hi hkept) (q := q') ?_
    · exact Option.some.inj (hstays.symm.trans hhanded)
    · rintro text rfl
      cases hq'

end Runs

end Session

section Coherence

/-- What a session does at a query, with the answers that the extraction of a text gives. -/
structure Session.ServesAs
    (parse : String → Node) (options : Options) (current extracted : Points) (q : Query)
    (s : Session) : Prop where
  /-- The text is the given one. -/
  source_eq : s.source = current
  /-- The answer is that of a new extraction. -/
  answers : Reply.Answers current (extractText parse options extracted) q (s.serve parse q).2
  /-- An access that fails changes nothing, and so it fails again. -/
  of_fault : ∀ f, (s.serve parse q).2.fault? = some f →
    (s.serve parse q).1 = s ∧ ((s.serve parse q).1.serve parse q).2.fault? = some f

theorem Session.servesAs_of_answers
    {parse : String → Node} {options : Options} {extracted : Points} {q : Query} {s : Session}
    (h : Reply.Answers s.source (extractText parse options extracted) q (s.serve parse q).2) :
    s.ServesAs parse options s.source extracted q := by
  refine ⟨rfl, h, fun f hf => ?_⟩
  have hsame := Session.serve_of_fault hf
  exact ⟨hsame, by rw [hsame, hf]⟩

section Histories

variable {parse : String → Node} {options : Options} {source : Points} {before after : List Query}

theorem Session.coherent_run
    (hdigests : DistinctDigests (encodedTexts source.encode? (before ++ after))) :
    (Session.run parse { options, source } before).Coherent parse
      (lastEncoded source.encode? before) :=
  (Session.coherent_new parse options source).run
    (hdigests.mono (encodedTexts_append_subset _ before after))

/-- The answers are those of the current text, if it has a UTF-8 form or no graph is kept. -/
theorem Session.serves_current
    {q : Query}
    (hdigests : DistinctDigests (encodedTexts source.encode? (before ++ q :: after)))
    (hcurrent : (Session.run parse { options, source } before).cache = none ∨
      ∃ text : String, currentSource source before = text) :
    (Session.run parse { options, source } before).ServesAs parse options
      (currentSource source before) (currentSource source before) q := by
  have hanswers := (Session.coherent_run hdigests).answers
    (by rwa [Session.source_run parse { options, source }]) q
  have hserves := Session.servesAs_of_answers hanswers
  rwa [Session.options_run, Session.source_run] at hserves

/-- The answers are those of the last text with a UTF-8 form, if a graph is kept. -/
theorem Session.serves_kept
    {q : Query}
    (hdigests : DistinctDigests (encodedTexts source.encode? (before ++ q :: after)))
    (hcache : (Session.run parse { options, source } before).cache ≠ none) :
    ∃ (text : String) (g : Graph), lastEncoded source.encode? before = some text ∧
      (extract options (parse text)).outcome = .ok g ∧
      (Session.run parse { options, source } before).ServesAs parse options
        (currentSource source before) text q := by
  obtain ⟨c, hc⟩ := Option.ne_none_iff_exists'.1 hcache
  obtain ⟨text, g, htext, hg, hanswers⟩ := (Session.coherent_run hdigests).answers_kept hc
  have hserves := Session.servesAs_of_answers (hanswers q)
  rw [Session.options_run] at hg
  rw [Session.options_run, Session.source_run] at hserves
  exact ⟨text, g, htext, hg, hserves⟩

/-- Two accesses hand out the same graph exactly when the last text with a UTF-8 form has
stayed. -/
theorem Session.stamp_eq_iff
    {q q' : Query} {between : List Query} {i j : Nat}
    (hdigests : DistinctDigests
      (encodedTexts source.encode? (before ++ q :: (between ++ q' :: after))))
    (hi : ((Session.run parse { options, source } before).serve parse q).2.stamp? = some i)
    (hj : ((Session.run parse { options, source } (before ++ q :: between)).serve parse
      q').2.stamp? = some j) :
    i = j
      ↔
    ∀ kept (text : String) rest, between = kept ++ .setSource text :: rest →
      lastEncoded source.encode? (before ++ q :: kept) = some text := by
  -- We start from the session after the first access, where its stamp is kept.
  rw [List.append_cons] at hdigests hj
  rw [Session.run_append] at hj
  have hstamp : (Session.run parse { options, source } (before ++ [q])).stamp? = some i := by
    rw [Session.run_append]
    exact (Session.stamp?_of_handed hi).2
  have hcoherent : (Session.run parse { options, source } (before ++ [q])).Coherent parse _ :=
    Session.coherent_run hdigests
  rw [← List.append_assoc] at hdigests
  have hlater := (hdigests.mono (encodedTexts_append_subset _ _ _)).mono
    (encodedTexts_lastEncoded_subset _ _ _)
  have hiff := hcoherent.stamp_eq_iff hlater hstamp hj
  simpa only [← lastEncoded_append, ← List.append_cons] using hiff

/-- If all texts have UTF-8 forms, the last one of them stays exactly when the current text
does. -/
theorem lastEncoded_stays_iff
    {between : List Query}
    (hplain : ∀ text ∈ textsOf source (before ++ (between ++ after)), ∃ s : String, text = s) :
    (∀ kept (text : String) rest, between = kept ++ .setSource text :: rest →
      lastEncoded source.encode? (before ++ kept) = some text)
      ↔
    ∀ kept (text : Points) rest, between = kept ++ .setSource text :: rest →
      text = currentSource source (before ++ kept) := by
  have hlast : ∀ kept (text : Points) rest, between = kept ++ .setSource text :: rest →
      (∃ t : String, text = t) ∧ ∃ s : String, currentSource source (before ++ kept) = s ∧
        lastEncoded source.encode? (before ++ kept) = some s := by
    rintro kept text rest rfl
    have hsplit : before ++ (kept ++ .setSource text :: rest ++ after) =
        (before ++ kept) ++ .setSource text :: (rest ++ after) := by
      simp only [List.append_assoc, List.cons_append]
    rw [hsplit] at hplain
    refine ⟨hplain text (mem_textsOf_setSource _ _ _ _), ?_⟩
    exact lastEncoded_eq_encode?_currentSource
      fun text h => hplain text (textsOf_append_subset source _ _ h)
  constructor
  · intro h kept text rest hsplit
    obtain ⟨⟨t, rfl⟩, s, hs, hsome⟩ := hlast kept text rest hsplit
    cases hsome.symm.trans (h kept t rest hsplit)
    exact hs.symm
  · intro h kept text rest hsplit
    obtain ⟨-, s, hs, hsome⟩ := hlast kept text rest hsplit
    cases (h kept text rest hsplit).trans hs
    exact hsome

end Histories

/-- What a session does, in the course of every sequence of queries, if different texts have
different digests.

* While the current text has a UTF-8 form, or no graph is kept, the session answers as if it
  extracted the graph of the current text each time: an access hands out the graph or its
  models, or it fails as the extraction does.  If it fails, nothing changes.
* While the current text has no UTF-8 form and a graph is kept, the session hands out the
  graph of the last text that has one.
* Two accesses hand out the same graph exactly when each text with a UTF-8 form that was set
  in between was the last one of them already.
* So if all texts have UTF-8 forms, the answers are always those of the current text, and two
  accesses hand out the same graph exactly when each text that was set in between was the
  current text already. -/
theorem session_coherent
    (parse : String → Node) (options : Options) (source : Points) (qs : List Query)
    (hdigests : DistinctDigests (encodedTexts source.encode? qs)) :
    (∀ before q after, qs = before ++ q :: after →
      ((Session.run parse { options, source } before).cache = none ∨
          (∃ text : String, currentSource source before = text) →
        (Session.run parse { options, source } before).ServesAs parse options
          (currentSource source before) (currentSource source before) q) ∧
      ((Session.run parse { options, source } before).cache ≠ none →
        (∀ text : String, currentSource source before ≠ text) →
        ∃ (text : String) (g : Graph), lastEncoded source.encode? before = some text ∧
          (extract options (parse text)).outcome = .ok g ∧
          (Session.run parse { options, source } before).ServesAs parse options
            (currentSource source before) text q)) ∧
    (∀ before q between q' after i j, qs = before ++ q :: (between ++ q' :: after) →
      ((Session.run parse { options, source } before).serve parse q).2.stamp? = some i →
      ((Session.run parse { options, source } (before ++ q :: between)).serve parse q').2.stamp? =
        some j →
      (i = j ↔ ∀ kept (text : String) rest, between = kept ++ .setSource text :: rest →
        lastEncoded source.encode? (before ++ q :: kept) = some text)) ∧
    ((∀ text ∈ textsOf source qs, ∃ s : String, text = s) →
      (∀ before q after, qs = before ++ q :: after →
        (Session.run parse { options, source } before).ServesAs parse options
          (currentSource source before) (currentSource source before) q) ∧
      (∀ before q between q' after i j, qs = before ++ q :: (between ++ q' :: after) →
        ((Session.run parse { options, source } before).serve parse q).2.stamp? = some i →
        ((Session.run parse { options, source } (before ++ q :: between)).serve parse q').2.stamp? =
          some j →
        (i = j ↔ ∀ kept (text : Points) rest, between = kept ++ .setSource text :: rest →
          text = currentSource source (before ++ q :: kept)))) := by
  refine ⟨?_, ?_, fun hplain => ⟨?_, ?_⟩⟩
  · rintro before q after rfl
    exact ⟨Session.serves_current hdigests, fun hcache _ => Session.serves_kept hdigests hcache⟩
  · rintro before q between q' after i j rfl hi hj
    exact Session.stamp_eq_iff hdigests hi hj
  · rintro before q after rfl
    obtain ⟨text, htext, -⟩ := lastEncoded_eq_encode?_currentSource
      fun text h => hplain text (textsOf_append_subset source before _ h)
    exact Session.serves_current hdigests (.inr ⟨text, htext⟩)
  · rintro before q between q' after i j rfl hi hj
    rw [Session.stamp_eq_iff hdigests hi hj]
    rw [List.append_cons] at hplain
    simpa only [← List.append_cons] using lastEncoded_stays_iff hplain

/-- An interface. -/
def bareInterface : String :=
  "interface A \x7b\x7d"

/-- An interface and a class of the same name, which have no graph. -/
def nameTwice : String :=
  "interface A \x7b\x7d class A \x7b\x7d"

/-- A single surrogate, which has no UTF-8 form. -/
def loneSurrogate : Points :=
  .cut "" ⟨0, by decide⟩ ""

/-- Queries that set the text again, then a faulty one, then the old one, and at last a single
surrogate. -/
def awayAndBack : List Query :=
  [.graph, .setSource bareInterface, .models, .setSource nameTwice, .graph,
    .setSource bareInterface, .graph, .setSource loneSurrogate, .graph]

theorem distinctDigests_awayAndBack :
    DistinctDigests (encodedTexts (some bareInterface) awayAndBack) := by
  have hdigests : Text.digest bareInterface ≠ Text.digest nameTwice := by decide +kernel
  have htexts : ∀ text ∈ encodedTexts (some bareInterface) awayAndBack,
      text = bareInterface ∨ text = nameTwice := by
    decide
  intro x hx y hy hxy
  rcases htexts x hx with rfl | rfl
  · rcases htexts y hy with rfl | rfl
    · rfl
    · exact absurd hxy hdigests
  · rcases htexts y hy with rfl | rfl
    · exact absurd hxy.symm hdigests
    · rfl

/-- The faulty text fails, the old text has another graph when it comes back, and that graph
is handed out again while the text is the surrogate. -/
theorem session_coherent_awayAndBack :
    DistinctDigests (encodedTexts (some bareInterface) awayAndBack) ∧
    (Session.run TypeScript.parse { options := {}, source := bareInterface }
      (awayAndBack.take 4)).ServesAs TypeScript.parse {} nameTwice nameTwice .graph ∧
    (Session.run TypeScript.parse { options := {}, source := bareInterface }
      (awayAndBack.take 8)).ServesAs TypeScript.parse {} loneSurrogate bareInterface .graph ∧
    ∃ i j,
      ((Session.run TypeScript.parse { options := {}, source := bareInterface } []).serve
        TypeScript.parse .graph).2.stamp? = some i ∧
      ((Session.run TypeScript.parse { options := {}, source := bareInterface }
        (awayAndBack.take 8)).serve TypeScript.parse .graph).2.stamp? = some j ∧
      (i = j ↔ ∀ kept (text : String) rest,
        [.setSource bareInterface, .models, .setSource nameTwice, .graph,
          .setSource bareInterface, .graph, .setSource loneSurrogate] =
          kept ++ .setSource text :: rest →
        lastEncoded (some bareInterface) (.graph :: kept) = some text) := by
  obtain ⟨hserves, hstamps, -⟩ := session_coherent TypeScript.parse {} bareInterface awayAndBack
    distinctDigests_awayAndBack
  have hfirst : ((Session.run TypeScript.parse { options := {}, source := bareInterface } []).serve
      TypeScript.parse .graph).2.stamp? = some 0 := by decide +kernel
  have hkept : (Session.run TypeScript.parse { options := {}, source := bareInterface }
      (awayAndBack.take 8)).stamp? = some 1 := by decide +kernel
  have hlast := Session.stamp?_graph_of_kept TypeScript.parse hkept
  have hcache : (Session.run TypeScript.parse { options := {}, source := bareInterface }
      (awayAndBack.take 8)).cache ≠ none := by
    intro hnone
    rw [Session.stamp?, hnone] at hkept
    cases hkept
  have hfaulty := (hserves (awayAndBack.take 4) .graph _ rfl).1 (.inr ⟨nameTwice, rfl⟩)
  obtain ⟨text, -, htext, -, hstale⟩ := (hserves (awayAndBack.take 8) .graph [] rfl).2 hcache nofun
  have hsame : lastEncoded (some bareInterface) (awayAndBack.take 8) = some bareInterface := rfl
  obtain rfl := Option.some.inj (htext.symm.trans hsame)
  exact ⟨distinctDigests_awayAndBack, hfaulty, hstale, 0, 1, hfirst, hlast,
    hstamps [] .graph _ .graph [] 0 1 rfl hfirst hlast⟩

end Coherence

end DeclGraph
