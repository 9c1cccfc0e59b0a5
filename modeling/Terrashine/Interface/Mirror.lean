import Terrashine.Model.Database

/-!
# What a mirror is for

The mirror as its clients see it: builds of providers under numbers that stay, archives of some
of these builds, and the tokens of registries.  There are no tables here, no bucket, no channel
and no refresher, and every request is answered at one moment.
`Mirror.Changes` lists what can happen to a mirror, `Mirror.Answers` which replies a request can
get, with which change, and what they tell of the mirror.
-/

set_option autoImplicit false

namespace Terrashine.Interface

open Terrashine.Library Terrashine.Model

/-- The state of a mirror. -/
@[ext]
structure Mirror where
  /-- What the link with that number is for. -/
  build : ℕ → Option (TerraformProvider × VersionTuple)
  archive : ℕ → Option Bytes
  token : Text → Option Text
  distinct : ∀ id id' b, build id = some b → build id' = some b → id = id'
  archived : ∀ id content, archive id = some content → ∃ b, build id = some b

namespace Mirror

/-- The builds of a provider. -/
def offers (m : Mirror) (p : TerraformProvider) : Set VersionTuple :=
  {v | ∃ id, m.build id = some (p, v)}

/-! ## Changes -/

/-- What a registry tells of a provider: its versions, and the builds of these. -/
structure Announcement where
  versions : Set Text
  builds : Set VersionTuple
  listed : ∀ t ∈ builds, t.version ∈ versions

inductive Change where
  | publish (p : TerraformProvider) (told : Announcement)
  | store (id : ℕ) (content : Bytes)
  | setToken (hostname token : Text)
  | forgetToken (hostname : Text)

/-- What a change does; nothing it does not name changes with it. -/
inductive Changes (m m' : Mirror) : Change → Prop
  | publish (p : TerraformProvider) (told : Announcement)
      (hnew : m'.offers p = m.offers p ∪ told.builds) (hother : ∀ q, q ≠ p → m'.offers q = m.offers q)
      (hkept : ∀ id b, m.build id = some b → m'.build id = some b)
      (harchive : m'.archive = m.archive) (htoken : m'.token = m.token) :
      Changes m m' (.publish p told)
  | store (id : ℕ) (content : Bytes) (hbuild : m'.build = m.build)
      (harchive : m'.archive = Function.update m.archive id (some content))
      (htoken : m'.token = m.token) : Changes m m' (.store id content)
  | setToken (hostname token : Text) (hbuild : m'.build = m.build)
      (harchive : m'.archive = m.archive)
      (htoken : m'.token = Function.update m.token hostname (some token)) :
      Changes m m' (.setToken hostname token)
  | forgetToken (hostname : Text) (hbuild : m'.build = m.build)
      (harchive : m'.archive = m.archive)
      (htoken : m'.token = Function.update m.token hostname none) :
      Changes m m' (.forgetToken hostname)

/-- What a later state owes to an earlier one. -/
structure Grows (m m' : Mirror) : Prop where
  build : ∀ id b, m.build id = some b → m'.build id = some b
  archive : ∀ id, m.archive id ≠ none → m'.archive id ≠ none

/-- A mirror has what it has. -/
theorem Grows.refl (m : Mirror) : m.Grows m := ⟨fun _ _ => id, fun _ => id⟩

/-- What was kept twice was kept. -/
theorem Grows.trans {m₁ m₂ m₃ : Mirror} (h : m₁.Grows m₂) (h' : m₂.Grows m₃) : m₁.Grows m₃ :=
  ⟨fun id b hb => h'.build id b (h.build id b hb), fun id ha => h'.archive id (h.archive id ha)⟩

/-- No change takes a build or an archive back. -/
theorem Changes.grows {m m' : Mirror} {change : Change} (h : m.Changes m' change) :
    m.Grows m' := by
  cases h with
  | publish p told hnew hother hkept harchive htoken =>
    refine ⟨hkept, fun id ha => ?_⟩
    rw [harchive]
    exact ha
  | store id content hbuild harchive htoken =>
    refine ⟨fun id b hb => by rw [hbuild, hb], fun id' ha => ?_⟩
    rw [harchive]
    by_cases hid : id' = id
    · rw [hid, Function.update_self]
      exact Option.some_ne_none content
    · rw [Function.update_of_ne hid]
      exact ha
  | setToken hostname token hbuild harchive htoken =>
    refine ⟨fun id b hb => by rw [hbuild, hb], fun id ha => ?_⟩
    rw [harchive]
    exact ha
  | forgetToken hostname hbuild harchive htoken =>
    refine ⟨fun id b hb => by rw [hbuild, hb], fun id ha => ?_⟩
    rw [harchive]
    exact ha

/-! ## Requests and replies -/

inductive Request where
  | versions (p : TerraformProvider)
  | builds (p : TerraformProvider) (version : Text)
  | archive (id : ℤ)
  | setToken (hostname token : Text)
  | forgetToken (hostname : Text)
  | hasToken (hostname : Text)
  | malformed

inductive Reply where
  | versions (listed : Set Text)
  | builds (listed : Set (Text × Text × ℕ))
  | archive (content : Bytes)
  | absent
  | done
  | hasToken (found : Bool)
  | failed

/-- The request is taken in the state `m`, makes the change, if there is one, and gets the reply.
Where there is none, the state stays.  A request may fail in any state. -/
inductive Answers (m : Mirror) : Request → Option Change → Mirror → Reply → Prop
  | listed (p : TerraformProvider) (h : (m.offers p).Nonempty) :
      Answers m (.versions p) none m (.versions {v | ∃ t ∈ m.offers p, t.version = v})
  | announced (m' : Mirror) (p : TerraformProvider) (told : Announcement)
      (h : m.Changes m' (.publish p told)) :
      Answers m (.versions p) (some (.publish p told)) m' (.versions told.versions)
  | builds (p : TerraformProvider) (version : Text) :
      Answers m (.builds p version) none m
        (.builds {b | m.build b.2.2 = some (p, ⟨version, b.1, b.2.1⟩)})
  | archived (id : ℕ) (content : Bytes) (h : m.archive id = some content) :
      Answers m (.archive id) none m (.archive content)
  | stored (m' : Mirror) (id : ℕ) (content : Bytes) (h : m.Changes m' (.store id content)) :
      Answers m (.archive id) (some (.store id content)) m' (.archive content)
  | absent (id : ℤ) (h : ∀ n : ℕ, (n : ℤ) = id → m.build n = none) :
      Answers m (.archive id) none m .absent
  | setToken (m' : Mirror) (hostname token : Text) (h : m.Changes m' (.setToken hostname token)) :
      Answers m (.setToken hostname token) (some (.setToken hostname token)) m' .done
  | forgetToken (m' : Mirror) (hostname : Text) (h : m.Changes m' (.forgetToken hostname)) :
      Answers m (.forgetToken hostname) (some (.forgetToken hostname)) m' .done
  | hasToken (hostname : Text) :
      Answers m (.hasToken hostname) none m (.hasToken (m.token hostname).isSome)
  | failed (request : Request) : Answers m request none m .failed

end Mirror

end Terrashine.Interface
