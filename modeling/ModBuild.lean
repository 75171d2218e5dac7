import ModBuild.Main
import ModBuild.Proofs.Banner
import ModBuild.Proofs.Build.Emitted
import ModBuild.Proofs.Build.Mirroring
import ModBuild.Proofs.Build.Normalising
import ModBuild.Proofs.Build.Plain
import ModBuild.Proofs.Build.Rebuilding
import ModBuild.Proofs.Build.Refusing
import ModBuild.Proofs.Build.Reporting
import ModBuild.Proofs.CommandLine.Refusing
import ModBuild.Proofs.Declaration.Repetition
import ModBuild.Proofs.Declaration.Spacing
import ModBuild.Proofs.Declaration.Transcription
import ModBuild.Proofs.Deferral.Placement
import ModBuild.Proofs.Deferral.Repeating
import ModBuild.Proofs.Exemption
import ModBuild.Proofs.Manifest
import ModBuild.Proofs.Require.Quoting
import ModBuild.Proofs.Require.Resolving
import ModBuild.Proofs.Require.Scanning
import ModBuild.Proofs.Watch.Agreement
import ModBuild.Proofs.Watch.Canonical
import ModBuild.Proofs.Watch.Confluence
import ModBuild.Proofs.Watch.Deletion
import ModBuild.Proofs.Watch.Delivery
import ModBuild.Proofs.Watch.Sources
import ModBuild.Proofs.Watch.Tracking
