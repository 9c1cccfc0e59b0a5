import Terrashine.Interface.Routing
import Terrashine.Analysis.RedirectUrl

/-!
# Which requests reach which handlers

`dispatch` walks a table of patterns and reads the parameters of the path; `Reaches` says what
comes out, one rule for each handler (`dispatch_eq_handled_iff`).  A client that escapes the names
it writes into a path gets to the handler it means, with the names it means, whatever characters
they have (`dispatch_path_iff`): only an empty host name of a credential, a segment that is no
version, and the version `index` go elsewhere.  The links of the artifacts come back to the handler
of the artifacts when the redirect URL names the place where the mirror is mounted
(`dispatch_link_iff`).
-/

set_option autoImplicit false

namespace Terrashine.Analysis

open Terrashine.Library Terrashine.Model Terrashine.Interface

/-! ## The table -/

/-- Which entry of the table the segments of a path lead to. -/
inductive Entry : List Text → Endpoint → List Text → Prop
  | credentials (h : Text) (hne : h ≠ []) :
      Entry ["api".toList, "v1".toList, "credentials".toList, h] .credentials [h]
  | index (h n t : Text) :
      Entry ["mirror".toList, "v1".toList, h, n, t, "index.json".toList] .index [h, n, t]
  | version (h n t v : Text) (hne : v ≠ []) (hv : v ≠ "index.json".toList) :
      Entry ["mirror".toList, "v1".toList, h, n, t, v] .version [h, n, t, v]
  | artifact (v : Text) (hne : v ≠ []) :
      Entry ["mirror".toList, "v1".toList, "artifacts".toList, v] .artifact [v]
  | healthcheck : Entry ["healthcheck".toList] .healthcheck []
  | metrics : Entry ["metrics".toList] .metrics []

/-- The templates, read segment by segment. -/
theorem routeTable_eq : routeTable =
    [([.literal "api".toList, .literal "v1".toList, .literal "credentials".toList, .param],
        .credentials),
      ([.literal "mirror".toList, .literal "v1".toList, .param, .param, .param,
        .literal "index.json".toList], .index),
      ([.literal "mirror".toList, .literal "v1".toList, .param, .param, .param, .param], .version),
      ([.literal "mirror".toList, .literal "v1".toList, .literal "artifacts".toList, .param],
        .artifact),
      ([.literal "healthcheck".toList], .healthcheck),
      ([.literal "metrics".toList], .metrics)] := by decide

/-- What the table finds for the segments of a path is their entry. -/
theorem lookup_routeTable {segments captured : List Text} {endpoint : Endpoint} :
    Router.lookup routeTable segments = some (endpoint, captured) ↔
      Entry segments endpoint captured := by
  have hdistinct : (routeTable.map Prod.fst).Nodup := by decide
  rw [Router.lookup_eq_some_iff hdistinct, routeTable_eq]
  constructor
  · rintro ⟨p, hmem, hmatch, hfirst⟩
    simp only [List.mem_cons, List.not_mem_nil, or_false, Prod.mk.injEq] at hmem
    rcases hmem with ⟨rfl, rfl⟩ | ⟨rfl, rfl⟩ | ⟨rfl, rfl⟩ | ⟨rfl, rfl⟩ | ⟨rfl, rfl⟩ | ⟨rfl, rfl⟩
    all_goals
      simp only [Router.matches_literal, Router.matches_param, Router.matches_nil] at hmatch
    · obtain ⟨_, rfl, _, rfl, _, rfl, h, _, _, rfl, rfl, hh, rfl, rfl⟩ := hmatch
      exact .credentials h fun hnil => hh hnil rfl
    · obtain ⟨_, rfl, _, rfl, h, _, _, rfl, rfl, -, n, _, _, rfl, rfl, -, t, _, _, rfl, rfl, -,
        _, rfl, rfl, rfl⟩ := hmatch
      exact .index h n t
    · obtain ⟨_, rfl, _, rfl, h, _, _, rfl, rfl, hh, n, _, _, rfl, rfl, hn, t, _, _, rfl, rfl, ht,
        v, _, _, rfl, rfl, hv, rfl, rfl⟩ := hmatch
      refine .version h n t v (fun hnil => hv hnil rfl) ?_
      -- the literal would have come first
      rintro rfl
      have hindex := hfirst _ (List.mem_cons_of_mem _ List.mem_cons_self) [h, n, t]
        (.literal _ (.literal _ (.param hh (.param hn (.param ht (.literal _ .nil))))))
      rcases hindex with heq | hprecedes
      · simp at heq
      · simp [Router.precedes_cons] at hprecedes
    · obtain ⟨_, rfl, _, rfl, _, rfl, v, _, _, rfl, rfl, hv, rfl, rfl⟩ := hmatch
      exact .artifact v fun hnil => hv hnil rfl
    · obtain ⟨_, rfl, rfl, rfl⟩ := hmatch
      exact .healthcheck
    · obtain ⟨_, rfl, rfl, rfl⟩ := hmatch
      exact .metrics
  · intro hentry
    cases hentry with
    | credentials h hne =>
      refine ⟨_, List.mem_cons_self, .literal _ (.literal _ (.literal _
        (.param (fun hnil => absurd hnil hne) .nil))), ?_⟩
      simp +decide [Router.matches_literal]
    | index h n t =>
      refine ⟨_, List.mem_cons_of_mem _ List.mem_cons_self, .literal _ (.literal _ (.param (by simp)
        (.param (by simp) (.param (by simp) (.literal _ .nil))))), ?_⟩
      simp +decide [Router.matches_literal, Router.matches_param, Router.matches_nil,
        Router.precedes_cons]
    | version h n t v hne hv =>
      refine ⟨_, List.mem_cons_of_mem _ (List.mem_cons_of_mem _ List.mem_cons_self), .literal _
        (.literal _ (.param (by simp) (.param (by simp) (.param (by simp)
          (.param (fun hnil => absurd hnil hne) .nil))))), ?_⟩
      simp +decide [Router.matches_literal, Router.matches_param, Router.matches_nil]
      exact fun heq => absurd heq hv
    | artifact v hne =>
      refine ⟨[.literal "mirror".toList, .literal "v1".toList, .literal "artifacts".toList, .param],
        by simp, .literal _ (.literal _ (.literal _
          (.param (fun hnil => absurd hnil hne) .nil))), ?_⟩
      simp +decide [Router.matches_literal, Router.matches_param, Router.matches_nil]
    | healthcheck =>
      refine ⟨[.literal "healthcheck".toList], by simp, .literal _ .nil, ?_⟩
      simp +decide [Router.matches_literal]
    | metrics =>
      refine ⟨[.literal "metrics".toList], by simp, .literal _ .nil, ?_⟩
      simp +decide [Router.matches_literal]

/-! ## Requests -/

/-- The method reads. -/
inductive Reads : Method → Prop
  | get : Reads .get
  | head : Reads .head

/-- The parameters of a path, as they stand in it and decoded. -/
def Decodes (raw values : List Text) : Prop := raw.mapM Url.percentDecode = some values

/-- Which requests a deployment gets to see, and as what. -/
inductive Reaches (token : Option Text) : Method → List Text → Route → Prop
  | update (h hostname t : Text) (hne : h ≠ []) (hh : Decodes [h] [hostname])
      (htoken : token = some t) :
      Reaches token .post ["api".toList, "v1".toList, "credentials".toList, h]
        (.updateCredential hostname t)
  | delete (h hostname : Text) (hne : h ≠ []) (hh : Decodes [h] [hostname]) :
      Reaches token .delete ["api".toList, "v1".toList, "credentials".toList, h]
        (.deleteCredential hostname)
  | exists_ (method : Method) (hmethod : Reads method) (h hostname : Text) (hne : h ≠ [])
      (hh : Decodes [h] [hostname]) :
      Reaches token method ["api".toList, "v1".toList, "credentials".toList, h]
        (.existsCredential hostname)
  | index (method : Method) (hmethod : Reads method) (h n t : Text) (p : TerraformProvider)
      (hp : Decodes [h, n, t] [p.hostname, p.namespace_, p.providerType]) :
      Reaches token method ["mirror".toList, "v1".toList, h, n, t, "index.json".toList] (.index p)
  | version (method : Method) (hmethod : Reads method) (h n t v : Text) (p : TerraformProvider)
      (segment : Text)
      (hp : Decodes [h, n, t, v] [p.hostname, p.namespace_, p.providerType, segment])
      (hindex : v ≠ "index.json".toList) (version : Version)
      (hversion : Version.tryFrom segment = .ok version) :
      Reaches token method ["mirror".toList, "v1".toList, h, n, t, v] (.version p segment)
  | artifact (method : Method) (hmethod : Reads method) (v value : Text) (versionId : ℤ)
      (hv : Decodes [v] [value]) (hid : Text.toInt64? value = some versionId) :
      Reaches token method ["mirror".toList, "v1".toList, "artifacts".toList, v]
        (.artifact versionId)

/-- What the extractors make of the parameters. -/
inductive Extracts (token : Option Text) : Handler → List Text → Route → Prop
  | update (hostname t : Text) (htoken : token = some t) :
      Extracts token .update [hostname] (.updateCredential hostname t)
  | delete (hostname : Text) : Extracts token .delete [hostname] (.deleteCredential hostname)
  | exists_ (hostname : Text) : Extracts token .exists_ [hostname] (.existsCredential hostname)
  | index (p : TerraformProvider) :
      Extracts token .index [p.hostname, p.namespace_, p.providerType] (.index p)
  | version (p : TerraformProvider) (segment : Text) (version : Version)
      (hversion : Version.tryFrom segment = .ok version) :
      Extracts token .version [p.hostname, p.namespace_, p.providerType, segment]
        (.version p segment)
  | artifact (value : Text) (versionId : ℤ) (hid : Text.toInt64? value = some versionId) :
      Extracts token .artifact [value] (.artifact versionId)

/-- The segment of a version is decoded like the names before it. -/
theorem Decodes.last {h n t v hostname namespace_ providerType segment : Text}
    (hdecodes : Decodes [h, n, t, v] [hostname, namespace_, providerType, segment]) :
    Url.percentDecode v = some segment := by
  unfold Decodes at hdecodes
  simp only [List.mapM_cons, List.mapM_nil, Option.bind_eq_bind, Option.bind_eq_some_iff,
    Option.pure_def, Option.some.injEq] at hdecodes
  obtain ⟨_, -, _, ⟨_, -, _, ⟨_, -, _, ⟨value, hvalue, _, rfl, rfl⟩, rfl⟩, rfl⟩, heq⟩ := hdecodes
  cases heq
  exact hvalue

section Dispatch

variable {token : Option Text} {method : Method} {path : Text} {route : Route}

/-- A request is handled when its path has an entry with a handler and readable parameters. -/
theorem dispatch_eq_handled : dispatch method path token = .handled route ↔
    ∃ segments endpoint captured handler params, Router.segments path = some segments ∧
      Entry segments endpoint captured ∧ endpoint.handler method = some handler ∧
      captured.mapM Url.percentDecode = some params ∧
      handler.extract token params = .handled route := by
  unfold dispatch
  constructor
  · intro h
    split at h
    · cases h
    · next endpoint captured hfound =>
      obtain ⟨segments, hsegments, hlookup⟩ := Option.bind_eq_some_iff.mp hfound
      split at h
      · cases h
      · next handler hhandler =>
        split at h
        · cases h
        · next params hparams =>
          exact ⟨segments, endpoint, captured, handler, params, hsegments,
            lookup_routeTable.mp hlookup, hhandler, hparams, h⟩
  · rintro ⟨segments, endpoint, captured, handler, params, hsegments, hentry, hhandler, hparams, h⟩
    rw [hsegments, Option.bind_some, lookup_routeTable.mpr hentry]
    dsimp only
    rw [hhandler]
    dsimp only
    rw [hparams]
    exact h

/-- What an extractor lets through is what `Extracts` says. -/
theorem extract_eq_handled {handler : Handler} {params : List Text} :
    handler.extract token params = .handled route ↔ Extracts token handler params route := by
  constructor
  · intro h
    unfold Handler.extract at h
    split at h
    · split at h
      · next hostname _ t =>
        cases h
        exact .update _ t rfl
      · cases h
    · cases h
      exact .delete _
    · cases h
      exact .exists_ _
    · next hostname namespace_ providerType =>
      cases h
      exact .index ⟨hostname, namespace_, providerType⟩
    · next hostname namespace_ providerType segment =>
      split at h
      · next version hversion =>
        cases h
        exact .version ⟨hostname, namespace_, providerType⟩ segment version hversion
      · cases h
    · split at h
      · next versionId hid =>
        cases h
        exact .artifact _ versionId hid
      · cases h
    all_goals cases h
  · intro h
    cases h with
    | update hostname t htoken => rw [htoken]; rfl
    | delete hostname => rfl
    | exists_ hostname => rfl
    | index p => rfl
    | version p segment version hversion =>
      unfold Handler.extract
      dsimp only
      rw [hversion]
    | artifact value versionId hid =>
      unfold Handler.extract
      dsimp only
      rw [hid]

/-- **What reaches which handler.** -/
theorem dispatch_eq_handled_iff : dispatch method path token = .handled route ↔
    ∃ segments, Router.segments path = some segments ∧ Reaches token method segments route := by
  rw [dispatch_eq_handled]
  constructor
  · rintro ⟨segments, endpoint, captured, handler, params, hsegments, hentry, hhandler, hparams, h⟩
    refine ⟨segments, hsegments, ?_⟩
    rw [extract_eq_handled] at h
    cases hentry with
    | credentials name hne =>
      cases method <;> cases hhandler <;> cases h
      · exact .exists_ _ .get name _ hne hparams
      · exact .exists_ _ .head name _ hne hparams
      · next htoken => exact .update name _ _ hne hparams htoken
      · exact .delete name _ hne hparams
    | index name n t =>
      cases method <;> cases hhandler <;> cases h
      · exact .index _ .get name n t _ hparams
      · exact .index _ .head name n t _ hparams
    | version name n t v hne hv =>
      cases method <;> cases hhandler <;> cases h
      · next hversion => exact .version _ .get name n t v _ _ hparams hv _ hversion
      · next hversion => exact .version _ .head name n t v _ _ hparams hv _ hversion
    | artifact v hne =>
      cases method <;> cases hhandler <;> cases h
      · next hid => exact .artifact _ .get v _ _ hparams hid
      · next hid => exact .artifact _ .head v _ _ hparams hid
    | healthcheck => cases method <;> cases hhandler <;> cases h
    | metrics => cases method <;> cases hhandler <;> cases h
  · rintro ⟨segments, hsegments, hreaches⟩
    cases hreaches with
    | update name hostname t hne hh htoken =>
      exact ⟨_, _, _, .update, _, hsegments, .credentials name hne, rfl, hh,
        extract_eq_handled.mpr (.update hostname t htoken)⟩
    | delete name hostname hne hh =>
      exact ⟨_, _, _, .delete, _, hsegments, .credentials name hne, rfl, hh,
        extract_eq_handled.mpr (.delete hostname)⟩
    | exists_ _ hmethod name hostname hne hh =>
      refine ⟨_, _, _, .exists_, _, hsegments, .credentials name hne, ?_, hh,
        extract_eq_handled.mpr (.exists_ hostname)⟩
      cases hmethod <;> rfl
    | index _ hmethod name n t p hp =>
      refine ⟨_, _, _, .index, _, hsegments, .index name n t, ?_, hp,
        extract_eq_handled.mpr (.index p)⟩
      cases hmethod <;> rfl
    | version _ hmethod name n t v p segment hp hindex version hversion =>
      -- the empty segment is no version
      have hne : v ≠ [] := by
        rintro rfl
        cases hp.last
        cases hversion
      refine ⟨_, _, _, .version, _, hsegments, .version name n t v hne hindex, ?_, hp,
        extract_eq_handled.mpr (.version p segment version hversion)⟩
      cases hmethod <;> rfl
    | artifact _ hmethod v value versionId hv hid =>
      -- the empty text is no integer
      have hne : v ≠ [] := by
        rintro rfl
        cases hv
        cases hid
      refine ⟨_, _, _, .artifact, _, hsegments, .artifact v hne, ?_, hv,
        extract_eq_handled.mpr (.artifact value versionId hid)⟩
      cases hmethod <;> rfl

end Dispatch

/-! ## Round trip -/

/-- The routes that have a path. -/
def Addressable : Route → Prop
  | .index _ => True
  | .version _ segment =>
      segment ≠ "index.json".toList ∧ ∃ version, Version.tryFrom segment = .ok version
  | .artifact versionId => Text.IsInt64 versionId
  | .updateCredential hostname _ => hostname ≠ []
  | .deleteCredential hostname => hostname ≠ []
  | .existsCredential hostname => hostname ≠ []

section RoundTrip

/-- An escaped name is read back. -/
theorem percentDecode_encodeSegment (t : Text) :
    Url.percentDecode (encodeSegment t) = some t :=
  Url.percentDecode_percentEncode (by decide) t

/-- Different names are escaped differently. -/
theorem encodeSegment_injective : Function.Injective encodeSegment := by
  intro t t' h
  have hdecode := percentDecode_encodeSegment t
  rw [h, percentDecode_encodeSegment] at hdecode
  exact (Option.some.inj hdecode).symm

/-- Only the empty name is escaped to nothing. -/
theorem encodeSegment_eq_nil {t : Text} : encodeSegment t = [] ↔ t = [] :=
  ⟨fun h => encodeSegment_injective h, fun h => by rw [h]; rfl⟩

/-- An escaped name has no slash. -/
theorem slash_not_mem_encodeSegment (t : Text) : '/' ∉ encodeSegment t := by
  intro h
  rcases Url.mem_percentEncode h with ⟨-, hset⟩ | hescape
  · exact absurd hset (by decide)
  · exact absurd hescape (by decide)

/-- A number has no slash. -/
theorem slash_not_mem_ofInt (i : ℤ) : '/' ∉ Text.ofInt i := by
  intro h
  rcases Text.mem_ofInt h with heq | hdigit
  · exact absurd heq (by decide)
  · exact absurd hdigit (by decide)

/-- No segment of a route's path has a slash. -/
theorem slash_not_mem_segments {route : Route} {s : Text} (h : s ∈ route.segments) : '/' ∉ s := by
  cases route with
  | artifact versionId =>
    simp only [Route.segments, List.mem_cons, List.not_mem_nil, or_false] at h
    rcases h with rfl | rfl | rfl | rfl
    · decide
    · decide
    · decide
    · exact slash_not_mem_ofInt versionId
  | _ =>
    simp only [Route.segments, providerSegments, List.cons_append, List.nil_append, List.mem_cons,
      List.not_mem_nil, or_false] at h
    rcases h with rfl | rfl | rfl | rfl | rfl | rfl
    all_goals first | decide | exact slash_not_mem_encodeSegment _

/-- The path of a route is cut into its segments again. -/
theorem segments_path (route : Route) : Router.segments route.path = some route.segments := by
  refine Router.segments_path ?_ fun s hs => slash_not_mem_segments hs
  cases route <;> exact List.cons_ne_nil _ _

/-- Escaped names are read back. -/
theorem decodes_encoded (names : List Text) : Decodes (names.map encodeSegment) names := by
  induction names with
  | nil => rfl
  | cons t names ih =>
    unfold Decodes at ih ⊢
    rw [List.map_cons, List.mapM_cons, percentDecode_encodeSegment, ih]
    rfl

/-- A number decodes to itself. -/
theorem percentDecode_ofInt (id : ℤ) :
    Url.percentDecode (Text.ofInt id) = some (Text.ofInt id) := by
  apply Url.percentDecode_of_not_mem
  exact fun hmem => (plain_of_mem_ofInt hmem).2.2.2 rfl

/-- The number of an artifact is read back from its path. -/
theorem decodes_ofInt (versionId : ℤ) :
    Decodes [Text.ofInt versionId] [Text.ofInt versionId] := by
  unfold Decodes
  rw [List.mapM_cons, percentDecode_ofInt]
  rfl

/-- The name of the index needs no escape. -/
theorem encodeSegment_index : encodeSegment "index.json".toList = "index.json".toList := by decide

/-- No other name is escaped to the segment of the index. -/
theorem encodeSegment_ne_index {t : Text} :
    encodeSegment t ≠ "index.json".toList ↔ t ≠ "index.json".toList := by
  constructor
  · rintro h rfl
    exact h encodeSegment_index
  · intro h heq
    rw [← encodeSegment_index] at heq
    exact h (encodeSegment_injective heq)

/-- The segments of a route reach this route exactly when it is addressable. -/
theorem reaches_segments_iff (route : Route) :
    Reaches route.token route.method route.segments route ↔ Addressable route := by
  constructor
  · intro h
    generalize hsegments : route.segments = segments at h
    generalize route.method = method at h
    generalize route.token = token at h
    cases h with
    | update h hostname t hne hh htoken =>
      cases hsegments
      exact fun hnil => hne (encodeSegment_eq_nil.mpr hnil)
    | delete h hostname hne hh =>
      cases hsegments
      exact fun hnil => hne (encodeSegment_eq_nil.mpr hnil)
    | exists_ _ hmethod h hostname hne hh =>
      cases hsegments
      exact fun hnil => hne (encodeSegment_eq_nil.mpr hnil)
    | index _ hmethod h n t p hp => trivial
    | version _ hmethod h n t v p segment hp hindex version hversion =>
      cases hsegments
      exact ⟨encodeSegment_ne_index.mp hindex, version, hversion⟩
    | artifact _ hmethod v value versionId hv hid =>
      cases hsegments
      exact Text.isInt64_of_toInt64? hid
  · intro h
    cases route with
    | index p =>
      exact .index _ .get _ _ _ p (decodes_encoded [p.hostname, p.namespace_, p.providerType])
    | version p segment =>
      obtain ⟨hindex, version, hversion⟩ := h
      exact .version _ .get _ _ _ _ p segment
        (decodes_encoded [p.hostname, p.namespace_, p.providerType, segment])
        (encodeSegment_ne_index.mpr hindex) version hversion
    | artifact versionId =>
      exact .artifact _ .get _ _ versionId (decodes_ofInt versionId) (Text.toInt64?_ofInt h)
    | updateCredential hostname t =>
      exact .update _ hostname t (mt encodeSegment_eq_nil.mp h) (decodes_encoded [hostname]) rfl
    | deleteCredential hostname =>
      exact .delete _ hostname (mt encodeSegment_eq_nil.mp h) (decodes_encoded [hostname])
    | existsCredential hostname =>
      exact .exists_ _ .get _ hostname (mt encodeSegment_eq_nil.mp h) (decodes_encoded [hostname])

/-- **A client that writes the path of a route gets this route**, unless it asks for the
credential of an empty host name, its segment is no version, or is the one that the index has. -/
theorem dispatch_path_iff (route : Route) :
    dispatch route.method route.path route.token = .handled route ↔ Addressable route := by
  rw [dispatch_eq_handled_iff, segments_path, ← reaches_segments_iff]
  constructor
  · rintro ⟨segments, heq, hreaches⟩
    cases heq
    exact hreaches
  · intro hreaches
    exact ⟨_, rfl, hreaches⟩

end RoundTrip

/-! ## Links -/

/-- The redirect URL was read from an argument whose links work. -/
def WorkingRedirects (hp : HostParser) (url : Url) : Prop :=
  ∃ s, validateRedirectUrl hp s = .ok url ∧ '?' ∉ s ∧ '#' ∉ s ∧ ¬ NothingButSlashes s

section Links

variable {hp : HostParser} {url : Url}

/-- A URL whose links work ends in an empty segment. -/
theorem WorkingRedirects.canonical (hhp : Url.CanonicalHosts hp) (h : WorkingRedirects hp url) :
    ∃ scheme authority before, url = Url.ofParts scheme authority (before ++ [[]]) none none ∧
      Url.Canonical hp scheme authority (before ++ [[]]) none none := by
  obtain ⟨s, h, hquery, hfragment, hslashes⟩ := h
  obtain ⟨hparse, hbase, hlast⟩ := validateRedirectUrl_ok h
  obtain ⟨scheme, rest, hsplit, hreads⟩ := Url.parse_reads hhp hparse hbase
  obtain ⟨authority, path, query, fragment, rfl, hcanonical, hnone, htrailing⟩ :=
    Url.canonical_of_reads (Url.canonicalScheme_of_splitScheme hsplit) hreads
  obtain ⟨rfl, rfl⟩ := (hnone.trans (noTail_iff hsplit)).mpr ⟨hquery, hfragment⟩
  have hrest : rest.getLast? = some '/' := by
    obtain ⟨opening, htext, -⟩ := eq_of_splitScheme hsplit
    have hclean := getLast_clean hlast
    rw [htext, List.getLast?_append, List.getLast?_cons] at hclean
    cases hrest : rest.getLast? with
    | none =>
      rw [hrest] at hclean
      exact absurd hclean (by simp)
    | some c =>
      rw [hrest] at hclean
      exact hclean
  rcases htrailing rfl rfl hrest with ⟨before, rfl⟩ | ⟨hrest, hspecial⟩
  · exact ⟨scheme, authority, before, rfl, hcanonical⟩
  · exact absurd ⟨scheme, hrest ▸ hsplit, hspecial⟩ hslashes

/-- The path of a link under such a URL. -/
theorem link_of_canonical {scheme : Text} {authority : Option Url.Authority} {before : List Text}
    (h : Url.Canonical hp scheme authority (before ++ [[]]) none none) (id : ℤ) :
    ∃ link, Url.parse hp (buildUrl (Url.ofParts scheme authority (before ++ [[]]) none
        none).serialize id) = .ok link ∧
      link.path = .segments (before ++ ["artifacts".toList, Text.ofInt id]) := by
  have hlink : Url.Canonical hp scheme authority (before ++ ["artifacts".toList, Text.ofInt id])
      none none :=
    ⟨h.lower, h.origin, canonicalPath_link h.segments id, fun hnil => absurd hnil (by simp), h.tail⟩
  rw [buildUrl_serialize]
  exact ⟨_, Url.parse_serialize hlink, rfl⟩

/-- A number is no version. -/
theorem tryFrom_ofInt (id : ℤ) (version : Version) :
    Version.tryFrom (Text.ofInt id) ≠ .ok version := by
  intro h
  have hdot : '.' ∉ Text.ofInt id := fun hmem => (plain_of_mem_ofInt hmem).2.2.1 rfl
  unfold Version.tryFrom at h
  split at h
  · next hsuffix =>
    obtain ⟨rest, hrest⟩ := Option.isSome_iff_exists.mp hsuffix
    rw [Text.stripSuffix_eq_some hrest] at hdot
    exact hdot (List.mem_append_right _ (by decide))
  · cases h

/-- A path that ends in the number of an artifact leads to this artifact or nowhere. -/
theorem reaches_artifact_iff {before : List Text} {id : ℤ} {method : Method} {token : Option Text}
    {route : Route} :
    Reaches token method (before ++ ["artifacts".toList, Text.ofInt id]) route ↔
      before = ["mirror".toList, "v1".toList] ∧ Reads method ∧ route = .artifact id ∧
        Text.IsInt64 id := by
  constructor
  · intro h
    generalize hsegments : before ++ ["artifacts".toList, Text.ofInt id] = segments at h
    have hsplit : ∀ (front : List Text) {a b : Text}, segments = front ++ [a, b] →
        before = front ∧ "artifacts".toList = a ∧ Text.ofInt id = b := by
      intro front a b heq
      obtain ⟨hbefore, htail⟩ := List.append_inj' (hsegments.trans heq) rfl
      obtain ⟨ha, hb⟩ := List.cons.inj htail
      exact ⟨hbefore, ha, List.head_eq_of_cons_eq hb⟩
    cases h with
    | artifact _ hmethod v value id' hv hid =>
      obtain ⟨hbefore, -, rfl⟩ := hsplit ["mirror".toList, "v1".toList] rfl
      unfold Decodes at hv
      rw [List.mapM_cons, percentDecode_ofInt] at hv
      cases hv
      obtain ⟨rfl, hint⟩ := Text.toInt64?_ofInt_eq_some.mp hid
      exact ⟨hbefore, hmethod, rfl, hint⟩
    | version _ hmethod h n t v p segment hp hindex version hversion =>
      obtain ⟨-, -, rfl⟩ := hsplit ["mirror".toList, "v1".toList, h, n] rfl
      have hsegment := hp.last
      rw [percentDecode_ofInt] at hsegment
      cases hsegment
      exact absurd hversion (tryFrom_ofInt id version)
    | index _ hmethod h n t p hp =>
      obtain ⟨-, -, hnumber⟩ := hsplit ["mirror".toList, "v1".toList, h, n] rfl
      have hdot : '.' ∈ Text.ofInt id := by
        rw [hnumber]
        decide
      exact absurd rfl (plain_of_mem_ofInt hdot).2.2.1
    | update h hostname t _ hh htoken =>
      obtain ⟨-, hne, -⟩ := hsplit ["api".toList, "v1".toList] rfl
      exact absurd hne (by decide)
    | delete h hostname _ hh =>
      obtain ⟨-, hne, -⟩ := hsplit ["api".toList, "v1".toList] rfl
      exact absurd hne (by decide)
    | exists_ _ hmethod h hostname _ hh =>
      obtain ⟨-, hne, -⟩ := hsplit ["api".toList, "v1".toList] rfl
      exact absurd hne (by decide)
  · rintro ⟨rfl, hmethod, rfl, hid⟩
    exact .artifact _ hmethod _ _ id (decodes_ofInt id) (Text.toInt64?_ofInt hid)

/-- A URL has the path of the mirror when its segments are those. -/
theorem serializePath_eq_iff {before : List Text} (h : ∀ s ∈ before, '/' ∉ s) :
    Url.serializePath (.segments (before ++ [[]])) = "/mirror/v1/".toList ↔
      before = ["mirror".toList, "v1".toList] := by
  have hread : Router.segments (Url.serializePath (.segments (before ++ [[]]))) =
      some (before ++ [[]]) := by
    refine Router.segments_path (by simp) fun s hs => ?_
    rcases List.mem_append.mp hs with hs | hs
    · exact h s hs
    · simp [List.mem_singleton.mp hs]
  have hmount : Router.segments "/mirror/v1/".toList =
      some (["mirror".toList, "v1".toList] ++ [[]]) := by decide
  constructor
  · intro heq
    rw [heq, hmount] at hread
    exact (List.append_inj' (Option.some.inj hread) rfl).1.symm
  · rintro rfl
    rfl

/-- **The links of the artifacts come back to the handler of the artifacts**, with the number they
were made from, exactly when the redirect URL, of those whose links work, has the path at which
the mirror is mounted. -/
theorem dispatch_link_iff (hhp : Url.CanonicalHosts hp) (h : WorkingRedirects hp url) {id : ℤ}
    {method : Method} {token : Option Text} {route : Route} :
    (∃ link, Url.parse hp (buildUrl url.serialize id) = .ok link ∧
      dispatch method (Url.serializePath link.path) token = .handled route) ↔
    Url.serializePath url.path = "/mirror/v1/".toList ∧ Reads method ∧ route = .artifact id ∧
      Text.IsInt64 id := by
  obtain ⟨scheme, authority, before, rfl, hcanonical⟩ := h.canonical hhp
  obtain ⟨link, hlink, hpath⟩ := link_of_canonical hcanonical id
  have hbefore : ∀ s ∈ before, '/' ∉ s := by
    intro s hs hslash
    have hundelimited := hcanonical.segments.undelimited s (List.mem_append_left _ hs) '/' hslash
    simp [Url.isDelimiter, Url.isSlash] at hundelimited
  have hread : Router.segments (Url.serializePath link.path) =
      some (before ++ ["artifacts".toList, Text.ofInt id]) := by
    rw [hpath]
    refine Router.segments_path (by simp) fun s hs => ?_
    rcases List.mem_append.mp hs with hs | hs
    · exact hbefore s hs
    · simp only [List.mem_cons, List.not_mem_nil, or_false] at hs
      rcases hs with rfl | rfl
      · decide
      · exact slash_not_mem_ofInt id
  show _ ↔ Url.serializePath (.segments (before ++ [[]])) = _ ∧ _
  rw [serializePath_eq_iff hbefore, ← reaches_artifact_iff]
  constructor
  · rintro ⟨link', hlink', h⟩
    cases hlink.symm.trans hlink'
    obtain ⟨segments, heq, hreaches⟩ := dispatch_eq_handled_iff.mp h
    cases hread.symm.trans heq
    exact hreaches
  · intro hreaches
    exact ⟨link, hlink, dispatch_eq_handled_iff.mpr ⟨_, hread, hreaches⟩⟩

/-- A redirect URL with the path at which the mirror is mounted. -/
def mountedUrl : Url := exampleUrl ["mirror".toList, "v1".toList, []] none

/-- The redirect URL with that path was read from an argument whose links work. -/
theorem workingRedirects_mounted : WorkingRedirects plainHosts mountedUrl := by
  refine ⟨"https://example.com/mirror/v1/".toList, by decide, by decide, by decide, ?_⟩
  rintro ⟨scheme, hsplit, -⟩
  have hrest : (Url.splitScheme (Url.clean "https://example.com/mirror/v1/".toList)).map Prod.snd =
      some "//example.com/mirror/v1/".toList := by decide
  rw [hsplit] at hrest
  exact absurd hrest (by simp)

/-- Under it the link of artifact 7 leads to artifact 7. -/
theorem dispatch_link_mounted :
    ∃ link, Url.parse plainHosts (buildUrl mountedUrl.serialize 7) = .ok link ∧
      dispatch .get (Url.serializePath link.path) none = .handled (.artifact 7) :=
  (dispatch_link_iff canonicalHosts_plainHosts workingRedirects_mounted).mpr
    ⟨by decide, .get, rfl, by decide⟩

end Links

end Terrashine.Analysis
