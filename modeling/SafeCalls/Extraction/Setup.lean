import SafeCalls.Extraction.Extractor
import SafeCalls.Extraction.Marker
import SafeCalls.Settings.Basic

namespace SafeCalls

/-!
# Extraction by settings

The extractor that settings ask for: it looks for the configured names.
-/

namespace Conventions

def classifier (c : Conventions) : Classifier := .derivedFrom c.configurationBaseType

def interpreter (c : Conventions) : Interpreter :=
  ⟨c.entryPoint, (Marker.mk c.trustAllMarker).recognises⟩

end Conventions

namespace Settings

def extractor (s : Settings) : Extractor :=
  ⟨s.conventions.classifier, s.conventions.interpreter, s.parallel.isEnabled⟩

end Settings

end SafeCalls
