import OpenSlidesAutoupdate.Keysbuilder.Request
import OpenSlidesAutoupdate.Keysbuilder.Builder
import OpenSlidesAutoupdate.Keysbuilder.Run
import OpenSlidesAutoupdate.Keysbuilder.Json
import OpenSlidesAutoupdate.Keysbuilder.Termination
import OpenSlidesAutoupdate.Keysbuilder.Reference
import OpenSlidesAutoupdate.Keysbuilder.Refinement
import OpenSlidesAutoupdate.Keysbuilder.Frame
import OpenSlidesAutoupdate.Server.Main
import OpenSlidesAutoupdate.Autoupdate.Connection
import OpenSlidesAutoupdate.Autoupdate.Topic
import OpenSlidesAutoupdate.Autoupdate.Service
import OpenSlidesAutoupdate.Test.RestricterMock
