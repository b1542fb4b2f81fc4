/-
  MachineList.Proofs.Settings.RoundTrip — saved settings are loaded as they were saved.

  The settings file is a document of three blocks (`toml_eq`), and the document is read back as the
  record of its blocks. A record without one of the three sections counts like the same record with
  the standard section in some place (`ofNode?_filled`).
  - `load_text`: the text of settings is loaded as these settings, or refused for their permission.
  - `loaded_as_saved`: both on a file system, where the settings are under their path once they
    could be saved.
-/

import MachineList.Proofs.Settings.Files
import MachineList.Proofs.Settings.Records
import MachineList.Proofs.Toml.Appending

namespace MachineList.Settings

open MachineList.Toml (Block)

/-! ## The blocks of a settings file -/

def identityBlock (p : IdentityPolicy) : Block where
  name := "identity"
  fields := [("durable_field", .text p.durableField), ("fallback_fields", .texts p.fallbackFields),
    ("unidentifiable_typenames", .texts p.embeddedTypenames)]

def accessBlock (setAccess : String) : Block where
  name := "access"
  fields := [("set_access_action", .text setAccess)]

def loggingBlock (filter : String) : Block where
  name := "logging"
  fields := [("filter", .text filter)]

def blocks (s : Settings) : List Block :=
  [identityBlock s.identity, accessBlock s.setAccess, loggingBlock s.logFilter]

theorem toml_eq (s : Settings) : s.toml = Toml.written s.blocks := by
  simp [toml, blocks, Toml.written, Block.written, identityBlock, accessBlock, loggingBlock, Toml.Value.written]

theorem plain_blocks (s : Settings) : ∀ b ∈ s.blocks, b.Plain := by
  have hwords : ∀ k ∈ ["identity", "durable_field", "fallback_fields", "unidentifiable_typenames", "access",
      "set_access_action", "logging", "filter"], Toml.Bare k.toList := by decide
  simp only [List.forall_mem_cons] at hwords
  obtain ⟨hidentity, hdurable, hfallback, hembedded, haccess, haction, hlogging, hfilter, -⟩ := hwords
  simp only [blocks, List.forall_mem_cons]
  refine ⟨⟨hidentity, ?_, by simp [identityBlock]⟩, ⟨haccess, ?_, by simp [accessBlock]⟩,
    ⟨hlogging, ?_, by simp [loggingBlock]⟩, List.forall_mem_nil _⟩
  · simp only [identityBlock, List.forall_mem_cons]
    exact ⟨hdurable, hfallback, hembedded, List.forall_mem_nil _⟩
  · simp only [accessBlock, List.forall_mem_cons]
    exact ⟨haction, List.forall_mem_nil _⟩
  · simp only [loggingBlock, List.forall_mem_cons]
    exact ⟨hfilter, List.forall_mem_nil _⟩

theorem nodup_blocks (s : Settings) : (s.blocks.map Block.name).Nodup := by
  simp [blocks, identityBlock, accessBlock, loggingBlock]

/-! ## The sections of a record -/

theorem mapM_text? (ss : List String) : (ss.map fun s => Node.json (.str s)).mapM Node.text? = some ss := by
  induction ss with
  | nil => rfl
  | cons s ss ih =>
    rw [List.map_cons, List.mapM_cons, ih]
    rfl

theorem fields?_block (b : Block) (hkeys : (b.fields.map Prod.fst).Nodup) :
    Node.fields? (b.fields.map Prod.fst) b.node = some (b.fields.map fun f => some f.2.node) := by
  have hsame : b.entries.map Prod.fst = b.fields.map Prod.fst := by
    rw [Block.entries, List.map_map]
    rfl
  have hown := Node.fields?_own (hsame ▸ hkeys)
  rwa [hsame, Block.entries, List.map_map] at hown

theorem ofNode?_identity (s : Settings) : IdentityPolicy.ofNode? (identityBlock s.identity).node = some s.identity := by
  have hfields : Node.fields? ["durable_field", "fallback_fields", "unidentifiable_typenames"]
      (identityBlock s.identity).node = _ := fields?_block (identityBlock s.identity) (by simp [identityBlock])
  have htexts : ∀ ss, (Toml.Value.texts ss).node.texts? = some ss := mapM_text?
  unfold IdentityPolicy.ofNode?
  rw [hfields]
  simp only [identityBlock, List.map_cons, List.map_nil, Option.bind_eq_bind, Option.bind_some, htexts]
  rfl

theorem sectionText?_single (name key text : String) :
    sectionText? key (Block.node ⟨name, [(key, .text text)]⟩) = some text := by
  have hfields : Node.fields? [key] (Block.node ⟨name, [(key, .text text)]⟩) = _ :=
    fields?_block ⟨name, [(key, .text text)]⟩ (List.nodup_singleton key)
  unfold sectionText?
  rw [hfields]
  rfl

theorem ofNode?_blocks (s : Settings) : ofNode? (.record (s.blocks.map fun b => (b.name, b.node))) = some s := by
  have hnodup : ((s.blocks.map fun b => (b.name, b.node)).map Prod.fst).Nodup := by
    rw [List.map_map]
    exact nodup_blocks s
  have hfields := Node.fields?_own hnodup
  change Node.fields? ["identity", "access", "logging"] _ = _ at hfields
  have haccess : sectionText? "set_access_action" (accessBlock s.setAccess).node = some s.setAccess :=
    sectionText?_single _ _ _
  have hlogging : sectionText? "filter" (loggingBlock s.logFilter).node = some s.logFilter := sectionText?_single _ _ _
  unfold ofNode?
  rw [hfields]
  simp only [blocks, List.map_cons, List.map_nil, Option.bind_eq_bind, Option.bind_some, Node.orElse, ofNode?_identity,
    haccess, hlogging]
  rfl

theorem ofToml?_toml (s : Settings) : ofToml? s.toml = some s := by
  rw [ofToml?, toml_eq, Toml.record?_written (plain_blocks s) (nodup_blocks s), Option.bind_some, ofNode?_blocks]

/-! ## Missing sections -/

/-- The members of the block stand in some order under its name, somewhere among the others. -/
structure Filled (b : Block) (ms ns : List (String × Node)) : Prop where
  free : Node.lookup? b.name ms = none
  perm : ∃ own, own.Perm b.entries ∧ ns.Perm ((b.name, .record own) :: ms)

/-- A section of its defaults says what a missing section says. -/
theorem ofNode?_filled {b : Block} (hb : b ∈ standard.blocks) {ms ns : List (String × Node)} (h : Filled b ms ns) :
    ofNode? (.record ns) = ofNode? (.record ms) := by
  obtain ⟨hfree, own, hown, hperm⟩ := h
  have hfields := Node.fields?_perm ["identity", "access", "logging"] hperm
  rw [Node.fields?_cons _ _ hfree] at hfields
  have hleft := Node.fields?_record ["identity", "access", "logging"] ms
  simp only [blocks, List.mem_cons, List.not_mem_nil, or_false] at hb
  unfold ofNode?
  rw [hfields, hleft]
  by_cases hr : Node.repeats ["identity", "access", "logging"] ms = true
  · rw [if_pos hr, if_pos hr]
  rw [if_neg hr, if_neg hr]
  rcases hb with rfl | rfl | rfl
  · have hnone : Node.lookup? "identity" ms = none := hfree
    have hread : IdentityPolicy.ofNode? (.record own) = some .standard := by
      unfold IdentityPolicy.ofNode?
      rw [Node.fields?_perm _ hown]
      exact ofNode?_identity standard
    have hname : (identityBlock standard.identity).name = "identity" := rfl
    simp [hname, hnone, hread, Node.orElse]
  · have hnone : Node.lookup? "access" ms = none := hfree
    have hread : sectionText? "set_access_action" (.record own) = some standardSetAccess := by
      unfold sectionText?
      rw [Node.fields?_perm _ hown]
      exact sectionText?_single _ _ _
    have hname : (accessBlock standard.setAccess).name = "access" := rfl
    simp [hname, hnone, hread, Node.orElse]
  · have hnone : Node.lookup? "logging" ms = none := hfree
    have hread : sectionText? "filter" (.record own) = some standardLogFilter := by
      unfold sectionText?
      rw [Node.fields?_perm _ hown]
      exact sectionText?_single _ _ _
    have hname : (loggingBlock standard.logFilter).name = "logging" := rfl
    simp [hname, hnone, hread, Node.orElse]

/-! ## Loading -/

theorem load_text (s : Settings) :
    (∀ p : Permission, p.name = Text.trim s.setAccess → load s.text = .ok s) ∧
      ((∀ p : Permission, p.name ≠ Text.trim s.setAccess) →
        load s.text = .error (.unknownPermission (Text.trim s.setAccess))) := by
  have hread : ofToml? s.text.toList = some s := by
    rw [text, String.toList_ofList, ofToml?_toml]
  constructor
  · intro p hp
    have hname : Permission.ofName? (Text.trim s.setAccess) = some p := Permission.ofName?_eq_some_iff.mpr hp
    simp only [load, hread, permission?, hname]
  · intro hunknown
    have hname : Permission.ofName? (Text.trim s.setAccess) = none :=
      Option.eq_none_iff_forall_ne_some.mpr fun p hp => hunknown p (Permission.ofName?_eq_some_iff.mp hp)
    simp only [load, hread, permission?, hname]

/-- The text describes a table without a section of the name. -/
def Lacks (name t : String) : Prop :=
  ∃ ms, Toml.record? t.toList = some (.record ms) ∧ Node.lookup? name ms = none

/-- The second text describes the table of the first one with the block in some place, and the first one
    lacks it. -/
def WrittenOut (b : Block) (t t' : String) : Prop :=
  ∃ ms ns, Toml.record? t.toList = some (.record ms) ∧ Toml.record? t'.toList = some (.record ns) ∧ Filled b ms ns

def withBlock (b : Block) (t : String) : String :=
  t ++ "\n" ++ String.ofList b.written

theorem writtenOut_withBlock {b : Block} (hb : b.Plain) {t : String} (h : Lacks b.name t) :
    WrittenOut b t (withBlock b t) := by
  obtain ⟨ms, hread, hfree⟩ := h
  have hlist : (withBlock b t).toList = t.toList ++ '\n' :: b.written := by
    simp [withBlock]
  refine ⟨ms, ms ++ [(b.name, b.node)], hread, ?_, hfree, b.entries, .refl _, List.perm_append_singleton _ _⟩
  rw [hlist]
  exact Toml.record?_append hread hb hfree

/-- A section that is missing counts like the standard one, wherever that is written out. -/
theorem load_writtenOut {b : Block} (hb : b ∈ standard.blocks) {t t' : String} (h : WrittenOut b t t') :
    load t' = load t := by
  obtain ⟨ms, ns, hleft, hright, hfilled⟩ := h
  have hsame : ofToml? t'.toList = ofToml? t.toList := by
    rw [ofToml?, ofToml?, hleft, hright, Option.bind_some, Option.bind_some, ofNode?_filled hb hfilled]
  rw [load, load, hsame]

theorem loadFrom_put {fs : FileSystem} {path : String} {p : Place} (hp : fs.fileAt? (Path.expand fs.home path) = some p)
    (t : String) : ((loadFrom path : StateM FileSystem _).run (fs.put p t)).1 = load t := by
  have hhome : (fs.put p t).home = fs.home := rfl
  rw [run_loadFrom, hhome]
  generalize Path.expand fs.home path = target at hp ⊢
  dsimp only
  rw [FileSystem.read?_put hp]

/-- On every file system and for every path under which settings can be saved, they are loaded from there as
    they were saved, whatever their texts are, or refused for the permission that they name. And a settings
    file that lacks a section is loaded like every file that has the standard one besides; the text with that
    section behind it is such a file. -/
theorem loaded_as_saved :
    (∀ (fs : FileSystem) (path : String) (s : Settings),
      let done := (s.saveTo path : StateM FileSystem _).run fs
      done.1 = .ok () →
        (∀ p : Permission, p.name = Text.trim s.setAccess →
          ((loadFrom path : StateM FileSystem _).run done.2).1 = .ok s) ∧
        ((∀ p : Permission, p.name ≠ Text.trim s.setAccess) →
          ((loadFrom path : StateM FileSystem _).run done.2).1 = .error (.unknownPermission (Text.trim s.setAccess)))) ∧
      ∀ b ∈ standard.blocks, ∀ t,
        (Lacks b.name t → WrittenOut b t (withBlock b t)) ∧
        ∀ t', WrittenOut b t t' → ∀ (fs : FileSystem) (path : String) (p : Place),
          fs.fileAt? (Path.expand fs.home path) = some p →
            ((loadFrom path : StateM FileSystem _).run (fs.put p t')).1 =
              ((loadFrom path : StateM FileSystem _).run (fs.put p t)).1 := by
  constructor
  · intro fs path s done hsaved
    have hload : (loadFrom path : StateM FileSystem _).run done.2 = (load s.text, done.2) := loadFrom_saved fs path hsaved
    rw [hload]
    dsimp only
    exact load_text s
  · intro b hb t
    refine ⟨writtenOut_withBlock (plain_blocks standard b hb), fun t' hout fs path p hp => ?_⟩
    rw [loadFrom_put hp, loadFrom_put hp]
    exact load_writtenOut hb hout

/-- Settings whose texts are to be quoted, saved into a new directory of the home directory; and a file that
    says nothing but the permission, with the standard filter behind it. -/
theorem loaded_as_saved_of_quotes :
    let fs : FileSystem := ⟨[], [["home"], ["home", "me"]], ["home", "me"], some "/home/me"⟩
    let s : Settings := ⟨⟨"a\"b\\c", ["d\ne", ""], []⟩, " clean_shutdown ", "\té"⟩
    let done := (s.saveTo "~/conf/vmlist.toml" : StateM FileSystem _).run fs
    let t := String.ofList (Toml.written [accessBlock "start"])
    done.1 = .ok () ∧ ((loadFrom "~/conf/vmlist.toml" : StateM FileSystem _).run done.2).1 = .ok s ∧
      Lacks "logging" t ∧
      ((loadFrom "/x" : StateM FileSystem _).run (fs.put ["x"] (withBlock (loggingBlock "info") t))).1 =
        ((loadFrom "/x" : StateM FileSystem _).run (fs.put ["x"] t)).1 := by
  intro fs s done t
  have hdone : done.1 = .ok () := by decide +kernel
  have hplain : ∀ b ∈ [accessBlock "start"], b.Plain := by
    intro b hb
    obtain rfl := List.mem_singleton.mp hb
    exact plain_blocks ⟨.standard, "start", standardLogFilter⟩ _ (by simp [blocks])
  have hread : Toml.record? t.toList = some (.record [("access", (accessBlock "start").node)]) := by
    rw [String.toList_ofList, Toml.record?_written hplain (List.nodup_singleton _)]
    rfl
  have hlacks : Lacks "logging" t := ⟨_, hread, rfl⟩
  have hlogging : loggingBlock "info" ∈ standard.blocks := by simp [blocks, standard, standardLogFilter]
  obtain ⟨hsaved, hlacking⟩ := loaded_as_saved
  obtain ⟨hout, hsame⟩ := hlacking _ hlogging t
  exact ⟨hdone, (hsaved fs _ s hdone).1 .cleanShutdown (by decide +kernel), hlacks,
    hsame _ (hout hlacks) fs "/x" ["x"] (by decide +kernel)⟩

end MachineList.Settings
