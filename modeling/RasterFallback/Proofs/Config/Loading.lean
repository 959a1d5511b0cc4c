import RasterFallback.Config.Load
import RasterFallback.Proofs.Json.Reading

/-!
Settings are loaded as they were written, and in every other text of the same object: members in
another order, members left out that have their defaults, members with other names.
-/
namespace RasterFallback
open RasterFallback.Text RasterFallback.Json RasterFallback.Files

/-- Whether a text is one of the settings. -/
def Config.IsSpelled (c : Config) (text : String) : Prop :=
  ∃ t, c.value.IsSpelled (some ({} : Config).value) t ∧ IsPadded t text.toList

theorem RendererConfig.isSpelled_value (r : RendererConfig) (defaults : Option Value) :
    r.value.IsSpelled defaults r.value.text := by
  have hargs : ∀ v ∈ r.args.map Value.string, v.IsSpelled none v.text := by
    intro v hv
    obtain ⟨s, -, rfl⟩ := List.mem_map.1 hv
    exact isSpelled_string s none
  apply isSpelled_object (by simp)
  simp only [List.forall_mem_cons, List.not_mem_nil, false_implies, implies_true, and_true]
  exact ⟨isSpelled_string .., isSpelled_array hargs _⟩

/-- The text that settings are written as is one of theirs. -/
theorem Config.isSpelled_text (c : Config) : c.IsSpelled c.text := by
  have htext : c.text.toList = c.value.text := String.toList_ofList
  refine ⟨c.value.text, ?_, ?_⟩
  · apply isSpelled_object (by simp)
    simp only [List.forall_mem_cons, List.not_mem_nil, false_implies, implies_true, and_true]
    exact ⟨isSpelled_string .., isSpelled_string .., isSpelled_string .., isSpelled_bool ..,
      c.renderer.isSpelled_value _⟩
  · rw [htext]
    exact isPadded_self _

section Fields

variable {α β : Type} {read : Reader α} {a : α} {t : List Char} {defaults : Option Value}

theorem reads_member (h : Reads read a t) (name : String) (set : α → β → β) :
    Reads (Config.member name read set).read (set a) t := by
  intro front rest hfront
  rw [Config.member]
  simp only [h front rest hfront, bind, Except.bind]

/-- A member that is read takes a record further. -/
theorem reads_known {mix : List String → β} {name : String} {set : α → β → β} (h : Reads read a t)
    (hmix : ∀ names, set a (mix names) = mix (name :: names)) :
    ∃ change, Reads (Config.member name read set).read change t ∧
      ∀ names, change (mix names) = mix (name :: names) :=
  ⟨set a, reads_member h name set, hmix⟩

theorem reads_spelledString {s : String} (h : (Value.string s).IsSpelled defaults t)
    (expected : String) : Reads (string expected) s t := by
  rw [Value.IsSpelled] at h
  obtain ⟨k, hk, rfl⟩ := h
  exact reads_string hk expected

theorem reads_spelledBool {b : Bool} (h : (Value.bool b).IsSpelled defaults t) :
    Reads boolean b t := by
  rw [Value.IsSpelled] at h
  rw [h]
  exact reads_boolean b

theorem reads_spelledStrings {ss : List String}
    (h : (Value.array (ss.map .string)).IsSpelled defaults t) (expected : String) :
    Reads (list (string expected)) ss t := by
  rw [Value.IsSpelled] at h
  obtain ⟨ts, u, hts, rfl, hspelled⟩ := h
  have hall : List.Forall₂ (Reads (string expected)) ss ts ∧ ∀ v ∈ ts, BeginsValue v := by
    clear hts
    induction ss generalizing ts with
    | nil =>
      rw [List.map_nil, areSpelled] at hspelled
      subst hspelled
      exact ⟨.nil, fun v hv => absurd hv List.not_mem_nil⟩
    | cons s ss ih =>
      rw [List.map_cons, areSpelled] at hspelled
      obtain ⟨t, ts, rfl, ht, hspelled⟩ := hspelled
      rw [Value.IsSpelled] at ht
      obtain ⟨k, hk, rfl⟩ := ht
      obtain ⟨hreads, hbegins⟩ := ih ts hspelled
      refine ⟨.cons (reads_string hk expected) hreads, List.forall_mem_cons.2 ⟨?_, hbegins⟩⟩
      exact ⟨_, _, rfl, by decide⟩
  exact reads_list hts hall.1 hall.2

end Fields

/-- The settings of a renderer when only the members with these names are known. -/
def RendererConfig.upTo (r : RendererConfig) (names : List String) : RendererConfig where
  program := if "program" ∈ names then r.program else ({} : RendererConfig).program
  args := if "args" ∈ names then r.args else ({} : RendererConfig).args

def Config.upTo (c : Config) (names : List String) : Config where
  fallbackSelector :=
    if "fallbackSelector" ∈ names then c.fallbackSelector else ({} : Config).fallbackSelector
  basePath := if "basePath" ∈ names then c.basePath else ({} : Config).basePath
  dest := if "dest" ∈ names then c.dest else ({} : Config).dest
  disableConvert :=
    if "disableConvert" ∈ names then c.disableConvert else ({} : Config).disableConvert
  renderer := if "renderer" ∈ names then c.renderer else ({} : Config).renderer

theorem RendererConfig.reads {r : RendererConfig} {t : List Char}
    (h : r.value.IsSpelled (some ({} : RendererConfig).value) t) (name : String) :
    Reads (record name RendererConfig.fields {}) r t := by
  apply reads_object r.upTo h rfl
  · intro f hf v u hv hu
    simp only [RendererConfig.fields, List.mem_cons, List.not_mem_nil, or_false] at hf
    rcases hf with rfl | rfl
    · obtain rfl : v = .string r.program := by simpa [Config.member] using hv
      exact reads_known (reads_spelledString hu _) fun names => by simp [upTo]
    · obtain rfl : v = .array (r.args.map .string) := by simpa [Config.member] using hv
      exact reads_known (reads_spelledStrings hu _) fun names => by simp [upTo]
  · intro names hnames
    obtain ⟨hprogram, hargs⟩ :
        ("program" ∉ names → ({} : RendererConfig).program = r.program) ∧
          ("args" ∉ names → ({} : RendererConfig).args = r.args) := by
      simpa [RendererConfig.value, Value.member?, List.lookup_cons] using hnames
    rw [upTo, ite_eq_left_iff.2 hprogram, ite_eq_left_iff.2 hargs]

theorem RendererConfig.value_injective {r s : RendererConfig} (h : r.value = s.value) : r = s := by
  simp only [RendererConfig.value, Value.object.injEq, List.cons.injEq, Prod.mk.injEq,
    Value.string.injEq, Value.array.injEq, true_and, and_true] at h
  obtain ⟨hprogram, hargs⟩ := h
  have hstring : Function.Injective Value.string := fun _ _ => Value.string.inj
  obtain ⟨program, args⟩ := r
  obtain rfl : program = s.program := hprogram
  obtain rfl : args = s.args := List.map_injective_iff.2 hstring hargs
  rfl

theorem Config.reads {c : Config} {t : List Char}
    (h : c.value.IsSpelled (some ({} : Config).value) t) (name : String) :
    Reads (record name Config.fields {}) c t := by
  apply reads_object c.upTo h rfl
  · intro f hf v u hv hu
    simp only [Config.fields, List.mem_cons, List.not_mem_nil, or_false] at hf
    rcases hf with rfl | rfl | rfl | rfl | rfl
    · obtain rfl : v = .string c.fallbackSelector := by simpa [Config.member] using hv
      exact reads_known (reads_spelledString hu _) fun names => by simp [upTo]
    · obtain rfl : v = .string c.basePath := by simpa [Config.member] using hv
      exact reads_known (reads_spelledString hu _) fun names => by simp [upTo]
    · obtain rfl : v = .string c.dest := by simpa [Config.member] using hv
      exact reads_known (reads_spelledString hu _) fun names => by simp [upTo]
    · obtain rfl : v = .bool c.disableConvert := by simpa [Config.member] using hv
      exact reads_known (reads_spelledBool hu) fun names => by simp [upTo]
    · obtain rfl : v = c.renderer.value := by simpa [Config.member] using hv
      exact reads_known (RendererConfig.reads hu _) fun names => by simp [upTo]
  · intro names hnames
    obtain ⟨hselector, hbase, hdest, hdisable, hrenderer⟩ :
        ("fallbackSelector" ∉ names → ({} : Config).fallbackSelector = c.fallbackSelector) ∧
          ("basePath" ∉ names → ({} : Config).basePath = c.basePath) ∧
          ("dest" ∉ names → ({} : Config).dest = c.dest) ∧
          ("disableConvert" ∉ names → ({} : Config).disableConvert = c.disableConvert) ∧
          ("renderer" ∉ names → ({} : Config).renderer.value = c.renderer.value) := by
      simpa [Config.value, Value.member?, List.lookup_cons] using hnames
    have hrenderer (h : "renderer" ∉ names) : ({} : Config).renderer = c.renderer :=
      RendererConfig.value_injective (hrenderer h)
    rw [upTo, ite_eq_left_iff.2 hselector, ite_eq_left_iff.2 hbase, ite_eq_left_iff.2 hdest,
      ite_eq_left_iff.2 hdisable, ite_eq_left_iff.2 hrenderer]

/-- Each text of settings is read as these, and then they are checked. -/
theorem Config.parse_spelled {c : Config} {text : String} (h : c.IsSpelled text) :
    Config.parse text = (do
      c.validate
      .ok c) := by
  obtain ⟨t, ht, front, behind, hfront, hbehind, htext⟩ := h
  have hreads := Config.reads ht "struct FallbackConfig" front behind hfront
  have hend : skipBlanks behind = [] := by
    have h := skipBlanks_append hbehind []
    rwa [List.append_nil] at h
  have hall : readAll (record "struct FallbackConfig" Config.fields {}) text.toList = .ok c := by
    rw [htext, readAll, hreads]
    simp only [bind, Except.bind, hend]
  rw [Config.parse, hall]

theorem Config.load_spelled {c : Config} {files : Tree} {path text : String}
    (htext : c.IsSpelled text) (hread : files.read path = .ok (utf8Bytes text.toList)) :
    Config.load files path = (do
      c.validate.mapError .config
      .ok c) := by
  have hfile : files.readText path = .ok text := by
    simp only [Tree.readText, hread, bind, Except.bind, ofUtf8?_utf8Bytes]
  have hload : Config.load files path = (Config.parse text).mapError .config := by
    rw [Config.load, hfile]
    rfl
  rw [hload, Config.parse_spelled htext]
  cases c.validate <;> rfl

section Reordered

def reorderedText : String :=
  "\x7b\x22z\x22:[1e5,null],\x22renderer\x22:\x7b\x22args\x22:[\x22\\ud83d\\ude00\x22]\x7d" ++
    ", \x22dest\x22:\x22o\\n\x22\x7d"

def reorderedConfig : Config := { dest := "o\n", renderer := { args := ["😀"] } }

def unknownText : List Char := ['[', '1', 'e', '5', ',', 'n', 'u', 'l', 'l', ']']

def pairText : List Char :=
  '[' :: (quoted ['\\', 'u', 'd', '8', '3', 'd', '\\', 'u', 'd', 'e', '0', '0'] ++ [']'])

def rendererText : List Char := '\x7b' :: (quoted "args".toList ++ ':' :: pairText ++ ['\x7d'])

def destText : List Char := quoted ['o', '\\', 'n']

theorem isValue_unknownText : IsValue unknownText := by
  have hdigits : AreDigits ['5'] := ⟨by simp, by simp⟩
  have hwhole : IsWhole ['1'] := .positive rfl (by decide) (by simp)
  have hexponent : IsExponent ['e', '5'] := .digits (.inl rfl) (.inl rfl) hdigits
  have hnumber : IsValue ['1', 'e', '5'] := .number (.parts (.inl rfl) hwhole .none hexponent)
  have hnull : IsValue ['n', 'u', 'l', 'l'] := .word (.inl rfl)
  have hitems : AreSeparated IsPadded [['1', 'e', '5'], ['n', 'u', 'l', 'l']]
      ['1', 'e', '5', ',', 'n', 'u', 'l', 'l'] :=
    .cons (isPadded_self ['1', 'e', '5']) (.last (isPadded_self ['n', 'u', 'l', 'l']))
  apply IsValue.list hitems
  intro v hv
  rcases List.mem_pair.1 hv with rfl | rfl
  · exact hnumber
  · exact hnull

/-- A character beyond sixteen bits may be written as a pair. -/
theorem isSpelled_pairText (defaults : Option Value) :
    (Value.array [.string "😀"]).IsSpelled defaults pairText := by
  have hd : hexValue? 'd' = some 13 := rfl
  have h8 : hexValue? '8' = some 8 := rfl
  have h3 : hexValue? '3' = some 3 := rfl
  have he : hexValue? 'e' = some 14 := rfl
  have h0 : hexValue? '0' = some 0 := rfl
  have hchar : SpellsChar '😀' ['\\', 'u', 'd', '8', '3', 'd', '\\', 'u', 'd', 'e', '0', '0'] :=
    .pair (.digits hd h8 h3 hd) (.digits hd he h0 h0) rfl rfl rfl
  rw [Value.IsSpelled]
  refine ⟨_, _, .last (isPadded_self _), rfl, ?_⟩
  simp only [areSpelled, Value.IsSpelled]
  exact ⟨_, _, rfl, ⟨_, .cons hchar .nil, rfl⟩, rfl⟩

theorem isSpelled_destText (defaults : Option Value) :
    (Value.string "o\n").IsSpelled defaults destText := by
  have ho : SpellsChar 'o' ['o'] := .plain (by decide) (by decide) (by decide)
  have hn : SpellsChar '\n' ['\\', 'n'] := .letter rfl
  rw [Value.IsSpelled]
  exact ⟨_, .cons ho (.cons hn .nil), rfl⟩

/-- A name that is written as it is, with the text of a value right behind it. -/
theorem isMember_plain (name : String) (front v : List Char) (hfront : AreBlank front)
    (hname : name.toList.flatMap escaped = name.toList) :
    IsMember (fun name k => Spells name.toList k) (name, v)
      (front ++ quoted name.toList ++ ':' :: v) := by
  have hspells : Spells name.toList name.toList := by
    have h := spells_escaped name.toList
    rwa [hname] at h
  have hkey : IsPadded (quoted name.toList) (front ++ quoted name.toList) :=
    ⟨front, [], hfront, areBlank_nil, by rw [List.append_nil]⟩
  exact ⟨_, _, _, hspells, hkey, isPadded_self _, rfl⟩

/-- The program has its default. -/
theorem isSpelled_rendererText :
    reorderedConfig.renderer.value.IsSpelled (some ({} : RendererConfig).value) rendererText := by
  have hargs := isMember_plain "args" [] pairText areBlank_nil rfl
  rw [RendererConfig.value, Value.IsSpelled]
  refine ⟨[("args", pairText)], _, .last hargs, rfl, by decide, by simp, ?_⟩
  apply membersSpelled_iff.2
  simp [reorderedConfig, Value.member?, RendererConfig.value, List.lookup_cons, isSpelled_pairText]

/-- The members are in another order, those that have their defaults are left out, and one has a
name that is not known. -/
theorem isSpelled_reorderedText : reorderedConfig.IsSpelled reorderedText := by
  have hblank : AreBlank [' '] := by simp [AreBlank, Json.isBlank]
  have hz := isMember_plain "z" [] unknownText areBlank_nil rfl
  have hrenderer := isMember_plain "renderer" [] rendererText areBlank_nil rfl
  have hdest := isMember_plain "dest" [' '] destText hblank rfl
  refine ⟨reorderedText.toList, ?_, isPadded_self _⟩
  rw [Config.value, Value.IsSpelled]
  refine ⟨[("z", unknownText), ("renderer", rendererText), ("dest", destText)], _,
    .cons hz (.cons hrenderer (.last hdest)), rfl, by decide, ?_, ?_⟩
  · simp [isValue_unknownText]
  · apply membersSpelled_iff.2
    have hmembers : ".no-svg" = reorderedConfig.fallbackSelector ∧ reorderedConfig.basePath = "" ∧
        (Value.string reorderedConfig.dest).IsSpelled (some (.string "")) destText ∧
        reorderedConfig.disableConvert = false ∧
        reorderedConfig.renderer.value.IsSpelled (some ({} : RendererConfig).value) rendererText :=
      ⟨rfl, rfl, isSpelled_destText _, rfl, isSpelled_rendererText⟩
    simpa [Value.member?, Config.value, List.lookup_cons] using hmembers

def settingsFile (text : String) : Tree :=
  { entries := [(["s.json"], .file (utf8Bytes text.toList) 0)] }

end Reordered

/-- Settings are loaded from the text that they are written as, and from every other text of
theirs. Those that are not usable are refused for that. -/
theorem Config.load_texts (c : Config) : c.IsSpelled c.text ∧
    ∀ (files : Tree) (path text : String), c.IsSpelled text →
      files.read path = .ok (utf8Bytes text.toList) →
      (c.validate = .ok () → Config.load files path = .ok c) ∧
        ∀ fault, c.validate = .error fault → Config.load files path = .error (.config fault) := by
  refine ⟨c.isSpelled_text, ?_⟩
  intro files path text htext hread
  rw [Config.load_spelled htext hread]
  constructor
  · intro hvalid
    rw [hvalid]
    rfl
  · intro fault hfault
    rw [hfault]
    rfl

theorem Config.load_texts_reordered :
    Config.load (settingsFile reorderedText) "/s.json" = .ok reorderedConfig ∧
      Config.load (settingsFile ({ fallbackSelector := " " } : Config).text) "/s.json" =
        .error (.config .emptySelector) := by
  constructor
  · have h := (Config.load_texts reorderedConfig).2 (settingsFile reorderedText) "/s.json"
      reorderedText isSpelled_reorderedText rfl
    exact h.1 rfl
  · have htexts := Config.load_texts { fallbackSelector := " " }
    have h := htexts.2 (settingsFile ({ fallbackSelector := " " } : Config).text) "/s.json" _
      htexts.1 rfl
    exact h.2 .emptySelector rfl

end RasterFallback
