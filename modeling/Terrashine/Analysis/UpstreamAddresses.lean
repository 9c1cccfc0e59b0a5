import Terrashine.Library.UrlPath
import Terrashine.Analysis.TokenScope

/-!
# Whose address a request goes to

The address of a provider's versions, and of the download of one version, is a path glued
together from names and resolved against the registry's base.  Where every name is one segment
of that path, `upstream_urls_differ_iff` says that two of them share an address exactly when
all their names are encoded alike; a name that is more than one segment can make up another
provider's path.
-/

set_option autoImplicit false

namespace Terrashine.Analysis

open Terrashine.Library Terrashine.Model

/-- The first segment of the path, as the parser reads it. -/
def firstSegment (namespace_ : Text) : Text := Url.withoutTabs (Url.trimStart namespace_)

/-- The segments that follow in the path of a provider's versions. -/
def versionsSegments (p : TerraformProvider) : List Text :=
  [Url.withoutTabs p.providerType, "versions".toList]

/-- The segments that follow in the path of a download. -/
def downloadSegments (a : ArtifactDetails) : List Text :=
  [Url.withoutTabs a.providerType, Url.withoutTabs a.version, "download".toList,
    Url.withoutTabs a.os, Url.withoutTabs (Url.trimEnd a.arch)]

/-- The path of the versions is that of its segments, trimmed at both ends. -/
theorem clean_versionsPath (p : TerraformProvider) :
    Url.clean (versionsPath p.namespace_ p.providerType) =
      Url.joinSegments (firstSegment p.namespace_ :: versionsSegments p) := by
  have hshape : versionsPath p.namespace_ p.providerType =
      p.namespace_ ++ '/' :: (p.providerType ++ '/' :: "versions".toList) := by
    unfold versionsPath
    simp only [List.append_assoc]
    rfl
  rw [hshape, Url.clean_append, Url.trimEnd_append, Url.withoutTabs_append]
  rfl

/-- The path of a download is that of its segments, trimmed at both ends. -/
theorem clean_downloadPath (a : ArtifactDetails) :
    Url.clean (downloadPath a) =
      Url.joinSegments (firstSegment a.namespace_ :: downloadSegments a) := by
  have hshape : downloadPath a = a.namespace_ ++ '/' :: (a.providerType ++ '/' ::
      (a.version ++ '/' :: ("download".toList ++ '/' :: (a.os ++ '/' :: a.arch)))) := by
    unfold downloadPath
    simp only [List.append_assoc]
    rfl
  rw [hshape, Url.clean_append]
  simp only [Url.trimEnd_append, Url.withoutTabs_append]
  rfl

/-- The names as they stand in the URL. -/
def versionsEncoding (p : TerraformProvider) : List Text :=
  (firstSegment p.namespace_ :: versionsSegments p).map (Url.percentEncode Url.pathSet)

def downloadEncoding (a : ArtifactDetails) : List Text :=
  (firstSegment a.namespace_ :: downloadSegments a).map (Url.percentEncode Url.pathSet)

/-- **Two addresses differ exactly when the names are encoded differently**, where each name is
one segment of the path. -/
theorem upstream_urls_differ_iff {deps : Externals} {port : ℕ} {hostname baseUrl : Text} {base : Url}
    (hbase : registryBase deps port hostname baseUrl = .ok base) :
    (∀ (p p' : TerraformProvider) (u u' : Url),
      Url.PathReference deps.backslashes (Url.isSpecial base.scheme) (firstSegment p.namespace_)
        (versionsSegments p) →
      Url.PathReference deps.backslashes (Url.isSpecial base.scheme) (firstSegment p'.namespace_)
        (versionsSegments p') →
      providerUrl deps port hostname baseUrl (versionsPath p.namespace_ p.providerType) = .ok u →
      providerUrl deps port hostname baseUrl (versionsPath p'.namespace_ p'.providerType) = .ok u' →
      (u ≠ u' ↔ versionsEncoding p ≠ versionsEncoding p')) ∧
    ∀ (a a' : ArtifactDetails) (u u' : Url),
      Url.PathReference deps.backslashes (Url.isSpecial base.scheme) (firstSegment a.namespace_)
        (downloadSegments a) →
      Url.PathReference deps.backslashes (Url.isSpecial base.scheme) (firstSegment a'.namespace_)
        (downloadSegments a') →
      providerUrl deps port hostname baseUrl (downloadPath a) = .ok u →
      providerUrl deps port hostname baseUrl (downloadPath a') = .ok u' →
      (u ≠ u' ↔ downloadEncoding a ≠ downloadEncoding a') := by
  constructor
  · intro p p' u u' hp hp' hu hu'
    exact not_congr (Url.join_pathReference_eq_iff hp hp' rfl (clean_versionsPath p)
      (clean_versionsPath p') ((providerUrl_ok_iff hbase u).mp hu)
      ((providerUrl_ok_iff hbase u').mp hu'))
  · intro a a' u u' ha ha' hu hu'
    exact not_congr (Url.join_pathReference_eq_iff ha ha' rfl (clean_downloadPath a)
      (clean_downloadPath a') ((providerUrl_ok_iff hbase u).mp hu)
      ((providerUrl_ok_iff hbase u').mp hu'))

/-- The providers of one namespace. -/
def hashicorp (providerType : String) : TerraformProvider :=
  { hostname := "registry".toList, namespace_ := "hashicorp".toList
    providerType := providerType.toList }

/-- The builds of one of their versions. -/
def hashicorpBuild (providerType arch : String) : ArtifactDetails :=
  { versionId := 1, hostname := "registry".toList, namespace_ := "hashicorp".toList
    providerType := providerType.toList, version := "1.0.0".toList, os := "linux".toList
    arch := arch.toList, artifactId := none }

/-- Two providers have different addresses, and so have two builds of one version, also where the
name of an architecture needs an escape and the other one spells it. -/
theorem upstream_urls_differ_iff_hashicorp :
    (∃ u u',
      providerUrl (pathRegistry none none) 443 "registry".toList "/v1/providers/".toList
        (versionsPath "hashicorp".toList "aws".toList) = .ok u ∧
      providerUrl (pathRegistry none none) 443 "registry".toList "/v1/providers/".toList
        (versionsPath "hashicorp".toList "google".toList) = .ok u' ∧ u ≠ u') ∧
    (∃ u u',
      providerUrl (pathRegistry none none) 443 "registry".toList "/v1/providers/".toList
        (downloadPath (hashicorpBuild "aws" "arm64")) = .ok u ∧
      providerUrl (pathRegistry none none) 443 "registry".toList "/v1/providers/".toList
        (downloadPath (hashicorpBuild "aws" "amd64")) = .ok u' ∧ u ≠ u') ∧
    ∃ u u',
      providerUrl (pathRegistry none none) 443 "registry".toList "/v1/providers/".toList
        (downloadPath (hashicorpBuild "aws" "\"a")) = .ok u ∧
      providerUrl (pathRegistry none none) 443 "registry".toList "/v1/providers/".toList
        (downloadPath (hashicorpBuild "aws" "%22a")) = .ok u' ∧ u = u' := by
  have hbase : registryBase (pathRegistry none none) 443 "registry".toList "/v1/providers/".toList =
      .ok _ := rfl
  have hsegments : ∀ arch ∈ ["arm64", "amd64", "\"a", "%22a"],
      Url.PathReference true true (firstSegment (hashicorpBuild "aws" arch).namespace_)
        (downloadSegments (hashicorpBuild "aws" arch)) := by
    intro arch harch
    simp only [List.mem_cons, List.not_mem_nil, or_false] at harch
    rcases harch with rfl | rfl | rfl | rfl <;>
      exact ⟨by decide, by decide, by decide, by decide, by decide⟩
  refine ⟨⟨_, _, rfl, rfl, ?_⟩, ⟨_, _, rfl, rfl, ?_⟩, _, _, rfl, rfl, ?_⟩
  · apply ((upstream_urls_differ_iff hbase).1 (hashicorp "aws") (hashicorp "google") _ _
      ⟨by decide, by decide, by decide, by decide, by decide⟩
      ⟨by decide, by decide, by decide, by decide, by decide⟩ rfl rfl).mpr
    decide
  · apply ((upstream_urls_differ_iff hbase).2 (hashicorpBuild "aws" "arm64")
      (hashicorpBuild "aws" "amd64") _ _ (hsegments _ (by decide)) (hsegments _ (by decide))
      rfl rfl).mpr
    decide
  · by_contra hne
    have hencoding := ((upstream_urls_differ_iff hbase).2 (hashicorpBuild "aws" "\"a")
      (hashicorpBuild "aws" "%22a") _ _ (hsegments _ (by decide)) (hsegments _ (by decide))
      rfl rfl).mp hne
    exact hencoding (by decide)

/-- A slash in a name makes up the path of another provider. -/
theorem shared_address : ¬ ∀ (deps : Externals) (port : ℕ) (hostname baseUrl : Text)
    (p p' : TerraformProvider) (u u' : Url), p.namespace_ ≠ [] → p.providerType ≠ [] →
    p'.namespace_ ≠ [] → p'.providerType ≠ [] →
    (p.namespace_, p.providerType) ≠ (p'.namespace_, p'.providerType) →
    providerUrl deps port hostname baseUrl (versionsPath p.namespace_ p.providerType) = .ok u →
    providerUrl deps port hostname baseUrl (versionsPath p'.namespace_ p'.providerType) = .ok u' →
    u ≠ u' := by
  intro h
  exact h (pathRegistry none none) 443 "registry".toList "/v1/providers/".toList
    { hostname := "registry".toList, namespace_ := "a/b".toList, providerType := "c".toList }
    { hostname := "registry".toList, namespace_ := "a".toList, providerType := "b/c".toList }
    _ _ (by decide) (by decide) (by decide) (by decide) (by decide) rfl rfl rfl

end Terrashine.Analysis
