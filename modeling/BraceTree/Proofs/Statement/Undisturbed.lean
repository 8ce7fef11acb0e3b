import BraceTree.Proofs.Diagnostic.Listed
import BraceTree.Proofs.Statement.Abreast
import BraceTree.Proofs.Statement.Appended

/-!
# Sources that go on

A source that parses may go on behind a newline, and what is parsed of it then is what was parsed of
it before (`Program.append_undisturbed`). This is put together from what every stage of the parse
does with the longer source. Its tree is the tree of the source with more blocks behind the others
(`exists_place_append`). The statements of the source are carried out first, and they do what they
did (`exists_executed_append`); those that follow are in the root or in new blocks and leave the
others alone. All that is new is reported behind the newline, and so it is listed behind what was
reported before (`filter_findings`).

Right under the root the first block of the new text could take the last line of the source for its
header, if there were nothing but blanks between them. That is why the new text has to say something
before its first block.
-/

namespace BraceTree.Program

open BlockTree (root Abreast Continues Grows)

variable {source further : Text} {e e' : Extraction} {f f' : Forest}

/-- What the statements of a source leave, and what is wrong with them. -/
def executed (source : Text) (f : Forest) : BlockTree × List Finding :=
  Visit.run (Line.ofSource source) (classified source f) (Visit.all (classified source f) source)

/-- **The blocks of a source that goes on are placed**, and they are those of the source with others
behind them. -/
theorem exists_place_append (he : Extraction.ofSource source = .ok e)
    (he' : Extraction.ofSource further = .ok e') :
    ∃ f f', place source = .ok f ∧ place (source ++ '\n' :: further) = .ok f' ∧
      Continues source further (f.finish (Line.ofSource source))
        (f'.finish (Line.ofSource (source ++ '\n' :: further))) ∧
      Grows (f.finish (Line.ofSource source))
        (f'.finish (Line.ofSource (source ++ '\n' :: further))) := by
  obtain ⟨e'', -, he'', -⟩ := Extraction.exists_ofSource_append he he'
  obtain ⟨f, hf, hsound, hdone⟩ := Forest.build_eq_ok he
  obtain ⟨f', hf', hsound', hdone'⟩ := Forest.build_eq_ok he''
  have hc := hsound.continues_finish he he' he'' hdone hsound' hdone' (Line.ofSource source)
    (Line.ofSource (source ++ '\n' :: further))
  refine ⟨f, f', ?_, ?_, hc, hsound.grows_finish hsound' hc⟩
  · rw [place, he]
    exact hf
  · rw [place, he'']
    exact hf'

variable (hf : place source = .ok f) (hf' : place (source ++ '\n' :: further) = .ok f')
  (hc : Continues source further (f.finish (Line.ofSource source))
    (f'.finish (Line.ofSource (source ++ '\n' :: further))))
  (hg : Grows (f.finish (Line.ofSource source))
    (f'.finish (Line.ofSource (source ++ '\n' :: further))))

include hc hg

/-- **The lines of a source belong to the blocks they belonged to.** -/
theorem ownLine_eq {l : Line} (hl : l ∈ Line.ofSource source) :
    (f'.finish (Line.ofSource (source ++ '\n' :: further))).ownLine l =
      (f.finish (Line.ofSource source)).ownLine l := by
  have hle : l.contentOffset?.getD l.span.start ≤
      ((f.finish (Line.ofSource source)).get root).span.stop := by
    rw [hc.bracketed.root_span]
    exact Line.contentOffset_le hl
  rw [BlockTree.ownLine, BlockTree.ownLine,
    hg.blockAt_eq hc.bracketed.toNested hc.bracketed'.toNested hle]

theorem lines_prefix (sourceId : Nat) :
    (ofTree source sourceId (f.finish (Line.ofSource source))).lines <+:
      (ofTree (source ++ '\n' :: further) sourceId
        (f'.finish (Line.ofSource (source ++ '\n' :: further)))).lines := by
  obtain ⟨more, hlines, -⟩ := Line.exists_ofSource_append source further
  show (Line.ofSource source).map _ <+: (Line.ofSource (source ++ '\n' :: further)).map _
  rw [← List.map_congr_left fun l hl => ownLine_eq hc hg hl]
  exact (hlines ▸ List.prefix_append _ _ : Line.ofSource source <+: _).map _

include hf

/-- Before the first statement the trees stand abreast. -/
theorem abreast_classified : Abreast source.bytes (classified source f)
    (classified (source ++ '\n' :: further) f') where
  grows := hc.grows_classify hg
  nested := hc.classify.bracketed.toNested
  nested' := hc.classify.bracketed'.toNested
  wellTyped := wellTyped_classified hf
  declared := fun id k w hw => by
    rw [scope_classified hf id] at hw
    cases k <;> exact absurd hw List.not_mem_nil

include hf'

/-- **The statements of a source do what they did** before it went on. Those that follow are in the
root or in new blocks, and they stand behind the newline. -/
theorem exists_executed_append (htext : Text.SaysFirst further) : ∃ t rest,
    Abreast source.bytes (executed source f).1 t ∧ t.WellTyped ∧
      executed (source ++ '\n' :: further) f' =
        ((Visit.run (Line.ofSource (source ++ '\n' :: further)) t rest).1,
          (executed source f).2 ++
            (Visit.run (Line.ofSource (source ++ '\n' :: further)) t rest).2) ∧
      ∀ v ∈ rest, (executed source f).1.Rim v.block ∧ v.block < t.size ∧
        source.bytes < v.span.start := by
  have habreast := abreast_classified hf hc hg
  have hheaded := (headed_classified hf).1
  obtain ⟨rest, hall, hrest⟩ := Visit.exists_all_append habreast.grows hheaded
    (headed_classified hf').1 fun {c} hnew hlt => by
      rw [classified, BlockTree.size_classify] at hnew hlt
      exact hc.lt_headerSpan_start hg htext hnew hlt
  obtain ⟨hrun, hfindings⟩ := Visit.abreast_run (Line.agreeUpTo_append source further) _ habreast
    fun v hv => Visit.inside_of_mem_all hheaded hv
  have hsame := Visit.sameFrames_of_run (Line.ofSource source)
    (Visit.all (classified source f) source) (classified source f)
  have hsame' := Visit.sameFrames_of_run (Line.ofSource (source ++ '\n' :: further))
    (Visit.all (classified source f) source) (classified (source ++ '\n' :: further) f')
  refine ⟨_, rest, hrun, (Visit.wellTyped_and_keeps_of_run _ _ (wellTyped_classified hf')).1, ?_,
    fun v hv => ?_⟩
  · rw [executed, executed, hall, Visit.run_append, hfindings]
  · rw [BlockTree.Rim, hsame'.size_eq, executed, hsame.size_eq]
    exact hrest v hv

/-- **Up to the newline nothing else is found wrong.** -/
theorem filter_findings (htext : Text.SaysFirst further) :
    (findings (classified (source ++ '\n' :: further) f') (source ++ '\n' :: further)
      (executed (source ++ '\n' :: further) f').2).filter (fun d => d.span.start ≤ source.bytes) =
        findings (classified source f) source (executed source f).2 := by
  obtain ⟨t, rest, -, -, hexecuted, hrest⟩ := exists_executed_append hf hf' hc hg htext
  have hold : (executed source f).2.filter (fun d => d.span.start ≤ source.bytes) =
      (executed source f).2 := List.filter_eq_self.mpr fun d hd => by
    obtain ⟨v, hv, hspan⟩ := Visit.exists_of_mem_run hd
    rw [decide_eq_true_eq, hspan]
    exact (Visit.inside_of_mem_all (headed_classified hf).1 hv).2
  have hnew : (Visit.run (Line.ofSource (source ++ '\n' :: further)) t rest).2.filter
      (fun d => d.span.start ≤ source.bytes) = [] := List.filter_eq_nil_iff.mpr fun d hd hle => by
    obtain ⟨v, hv, hspan⟩ := Visit.exists_of_mem_run hd
    have := (hrest v hv).2.2
    rw [decide_eq_true_eq, hspan] at hle
    omega
  rw [findings, findings, hexecuted, List.filter_append, List.filter_append, List.filter_append,
    hold, hnew, List.append_nil, classified, classified, hc.filter_headerFindings hg htext,
    hc.filter_branchFindings hg htext]

omit hf hf' hc hg

/-- **Text on the lines after a source does not disturb what came before.** Let a source and a
further text have balanced braces, and let the further text say something before its first block, if
it has one. Then both the source and the source with the further text behind a newline are parsed.
Every block of the source but the root is in the longer program what it was: the same number, kind,
header, spans, lines, parent, children, variables and calls. The lines of the source are the first
lines, in the blocks they were in, and what was reported of it is reported first. The calls of its
root come first in the root, and all variables of its root are there, with the same type, mutability
and span, and where they may not be assigned again with the same binding. -/
theorem append_undisturbed (he : Extraction.ofSource source = .ok e)
    (he' : Extraction.ofSource further = .ok e') (htext : Text.SaysFirst further)
    (sourceId : Nat) :
    ∃ p q, ofText source sourceId = .ok p ∧
      ofText (source ++ '\n' :: further) sourceId = .ok q ∧
      p.tree.size ≤ q.tree.size ∧
      (∀ i : Nat, i ≠ root → i < p.tree.size → q.tree.get i = p.tree.get i) ∧
      p.lines <+: q.lines ∧ p.diagnostics <+: q.diagnostics ∧
      (p.tree.get root).calls <+: (q.tree.get root).calls ∧
      ∀ k, ∀ v ∈ (p.tree.get root).scope.collection k,
        ∃ v' ∈ (q.tree.get root).scope.collection k, v'.name = v.name ∧ v'.type = v.type ∧
          v'.isMutable = v.isMutable ∧ v'.span = v.span ∧
          (v.isMutable = false → v'.binding = v.binding) := by
  obtain ⟨f, f', hf, hf', hc, hg⟩ := exists_place_append he he'
  obtain ⟨t, rest, habreast, hwell, hexecuted, hrest⟩ :=
    exists_executed_append hf hf' hc hg htext
  have hgrows := habreast.grows
  have htree : (executed (source ++ '\n' :: further) f').1 =
      (Visit.run (Line.ofSource (source ++ '\n' :: further)) t rest).1 := by rw [hexecuted]
  refine ⟨_, _, ofText_of_place sourceId hf, ofText_of_place sourceId hf', ?_⟩
  show (executed source f).1.size ≤ (executed (source ++ '\n' :: further) f').1.size ∧
    (∀ i : Nat, i ≠ root → i < (executed source f).1.size →
      (executed (source ++ '\n' :: further) f').1.get i = (executed source f).1.get i) ∧
    _ ∧ _ ∧
    ((executed source f).1.get root).calls <+:
      ((executed (source ++ '\n' :: further) f').1.get root).calls ∧
    ∀ k, ∀ v ∈ ((executed source f).1.get root).scope.collection k,
      ∃ v' ∈ ((executed (source ++ '\n' :: further) f').1.get root).scope.collection k, _
  rw [htree]
  refine ⟨?_, fun i hr hi => ?_, lines_prefix hc hg sourceId, ?_, ?_, fun k v hv => ?_⟩
  · rw [(Visit.sameFrames_of_run _ _ _).size_eq]
    exact hgrows.size_le
  · -- the statements that follow do not come near the block
    refine Eq.trans ?_ (hgrows.get_eq hr hi)
    refine Visit.get_of_run (P := (executed source f).1.Rim) _ hwell (fun v hv b hb => ?_)
      fun hrim => ?_
    · obtain ⟨hrim, hlt, -⟩ := hrest v hv
      exact hgrows.rim_of_mem_pathToRoot habreast.nested habreast.nested' hlt hrim b hb
    · exact hrim.elim hr (Nat.not_le_of_lt hi)
  · exact Diagnostic.listed_prefix (Line.agreeUpTo_append source further)
      (filter_findings hf hf' hc hg htext) sourceId
  · rw [← hgrows.calls_root]
    exact Visit.calls_of_run _ rest hwell root
  · rw [← hgrows.scope_root] at hv
    exact (Visit.wellTyped_and_keeps_of_run _ rest hwell).2 root k v hv

/-- A block with an unknown header is what it was, and is reported first, when a branch follows that
has nothing to branch from. -/
theorem append_undisturbed_of_dangling : ∃ source further p q,
    source = "var x : Integer = 1\nf \x7b\x7d".toList ∧
      further = "x += 2\nelse \x7b x += 1 \x7d".toList ∧ Text.SaysFirst further ∧
      ofText source 0 = .ok p ∧ ofText (source ++ '\n' :: further) 0 = .ok q ∧
      q.tree.get 1 = p.tree.get 1 ∧ p.diagnostics.map (·.code) = [.unclassifiedHeader] ∧
      p.diagnostics <+: q.diagnostics := by
  generalize hsource : "var x : Integer = 1\nf \x7b\x7d".toList = source
  generalize hfurther : "x += 2\nelse \x7b x += 1 \x7d".toList = further
  obtain ⟨e, he⟩ : ∃ e, Extraction.ofSource source = .ok e := by
    rw [← hsource]
    exact ⟨_, rfl⟩
  obtain ⟨e', he'⟩ : ∃ e, Extraction.ofSource further = .ok e := by
    rw [← hfurther]
    exact ⟨_, rfl⟩
  have htext : Text.SaysFirst further := fun b hb => by
    subst hfurther
    obtain rfl := Option.some.inj hb
    decide
  have hparsed : ((ofText source 0).toOption.map fun p =>
      (p.tree.size, p.diagnostics.map (·.code))) = some (2, [.unclassifiedHeader]) := by
    rw [← hsource]
    decide +kernel
  obtain ⟨p, q, hp, hq, -, hblocks, -, hdiagnostics, -⟩ := append_undisturbed he he' htext 0
  obtain ⟨p', hp', hvalues⟩ := exists_of_toOption_map hparsed
  obtain rfl := Except.ok.inj (hp'.symm.trans hp)
  obtain ⟨hsize, hcodes⟩ := Prod.mk.inj hvalues
  exact ⟨source, further, p', q, rfl, rfl, htext, hp, hq,
    hblocks 1 (by decide) (by rw [hsize]; decide), hcodes, hdiagnostics⟩

end BraceTree.Program
